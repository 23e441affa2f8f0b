import Ns3.Rlc.UmTransmitter

/-!
# The PDUs of `LteRlcAm`

An RLC data PDU is its header with its data field, a STATUS PDU is a header
alone. The header fields are those that come back from `Serialize` and
`Deserialize`, sequence numbers as the values written. Re-segmentation is not
supported by the source, so its fields are left out.
-/

namespace Ns3.Rlc

open Framing

/-- `LteRlcAmHeader` of an RLC data PDU. -/
structure LteRlcAmHeader where
  headerLength : Nat
  pollingBit : Bool
  framingInfo : Nat
  sequenceNumber : Nat
  extensionBits : List Nat
  lengthIndicators : List Nat
  deriving DecidableEq

namespace LteRlcAmHeader

/-- `SetDataPdu` on a new header. -/
def setDataPdu : LteRlcAmHeader := ⟨4, true, 0xff, 0xfffa % 1024, [], []⟩

def setPollingBit (h : LteRlcAmHeader) (pollingBit : Bool) : LteRlcAmHeader :=
  { h with pollingBit := pollingBit }

def setFramingInfo (h : LteRlcAmHeader) (framingInfo : Nat) : LteRlcAmHeader :=
  { h with framingInfo := framingInfo &&& 0x03 }

def setSequenceNumber (h : LteRlcAmHeader) (sequenceNumber : SequenceNumber10) :
    LteRlcAmHeader :=
  { h with sequenceNumber := sequenceNumber.value }

def pushExtensionBit (h : LteRlcAmHeader) (extensionBit : Nat) : LteRlcAmHeader :=
  let extensionBits := h.extensionBits ++ [extensionBit]
  { h with
    extensionBits := extensionBits
    headerLength :=
      if 1 < extensionBits.length then
        if extensionBits.length % 2 = 1 then h.headerLength + 1 else h.headerLength + 2
      else h.headerLength }

def pushLengthIndicator (h : LteRlcAmHeader) (lengthIndicator : Nat) : LteRlcAmHeader :=
  { h with lengthIndicators := h.lengthIndicators ++ [lengthIndicator] }

def pushes : Pushes LteRlcAmHeader := ⟨pushExtensionBit, pushLengthIndicator⟩

end LteRlcAmHeader

/-- An RLC data PDU. -/
structure AmdPdu where
  rlcAmHeader : LteRlcAmHeader
  dataField : Packet
  deriving DecidableEq

namespace AmdPdu

/-- `GetSize`. -/
def size (pdu : AmdPdu) : Nat := pdu.rlcAmHeader.headerLength + pdu.dataField.length

def setPollingBit (pdu : AmdPdu) (pollingBit : Bool) : AmdPdu :=
  { pdu with rlcAmHeader := pdu.rlcAmHeader.setPollingBit pollingBit }

@[simp]
theorem setPollingBit_sequenceNumber (pdu : AmdPdu) (pollingBit : Bool) :
    (pdu.setPollingBit pollingBit).rlcAmHeader.sequenceNumber =
      pdu.rlcAmHeader.sequenceNumber := rfl

end AmdPdu

/-- `LteRlcAmHeader` of a STATUS PDU. -/
structure StatusPdu where
  headerLength : Nat
  ackSn : Nat
  nackSnList : List Nat
  deriving DecidableEq

namespace StatusPdu

/-- `SetControlPdu` on a new header. -/
def setControlPdu : StatusPdu := ⟨2, 0xffff % 1024, []⟩

/-- The argument is a `uint16_t`. -/
def oneMoreNackWouldFitIn (h : StatusPdu) (bytes : Nat) : Bool :=
  if h.nackSnList.length % 2 = 0 then decide (h.headerLength < bytes % 65536)
  else decide (h.headerLength < bytes % 65536 - 1)

def pushNack (h : StatusPdu) (nack : Nat) : StatusPdu :=
  let nackSnList := h.nackSnList ++ [nack]
  { h with
    nackSnList := nackSnList
    headerLength :=
      if nackSnList.length % 2 = 0 then h.headerLength + 1 else h.headerLength + 2 }

def setAckSn (h : StatusPdu) (ackSn : SequenceNumber10) : StatusPdu :=
  { h with ackSn := ackSn.value }

def isNackPresent (h : StatusPdu) (nack : Nat) : Bool := h.nackSnList.contains nack

end StatusPdu

/-- Either kind of PDU. -/
inductive AmPdu
  | data (pdu : AmdPdu)
  | status (pdu : StatusPdu)
  deriving DecidableEq

/-! ## The PDU of a frame -/

namespace LteRlcAmHeader

/-- The bytes of the header with so many extension bits. -/
def lengthFor (bits : Nat) : Nat := 4 + 3 * ((bits - 1) / 2) + 2 * ((bits - 1) % 2)

/-- The header while length indicators are being pushed. -/
def pushed (lis : List Nat) : LteRlcAmHeader :=
  { setDataPdu with
    headerLength := lengthFor lis.length
    extensionBits := List.replicate lis.length LteRlcHeader.eLiFieldsFollows
    lengthIndicators := lis }

theorem lengthFor_succ (bits : Nat) : lengthFor (bits + 1) =
    if 1 < bits + 1 then
      if (bits + 1) % 2 = 1 then lengthFor bits + 1 else lengthFor bits + 2
    else lengthFor bits := by
  unfold lengthFor
  split
  · split <;> omega
  · omega

theorem pushed_next (lis : List Nat) (li : Nat) :
    ((pushed lis).pushExtensionBit 1).pushLengthIndicator li = pushed (lis ++ [li]) := by
  simp only [pushed, pushExtensionBit, pushLengthIndicator, List.length_append,
    List.length_replicate, List.length_singleton, lengthFor_succ, List.replicate_succ']
  rfl

/-- The pushes of the loop make the header of the length indicators. -/
theorem pushAll_eq (lis more : List Nat) :
    pushAll pushes (pushed lis) more = (pushed (lis ++ more)).pushExtensionBit 0 := by
  induction more generalizing lis with
  | nil =>
    rw [List.append_nil]
    rfl
  | cons li more ih =>
    have step : pushAll pushes (pushed lis) (li :: more) =
        pushAll pushes (((pushed lis).pushExtensionBit 1).pushLengthIndicator li) more := rfl
    simp [step, pushed_next, ih]

end LteRlcAmHeader

/-- The RLC data PDU of frame `n`, with the polling bit as it may be. -/
structure Carries (n : Nat) (f : Frame UInt8) (pdu : AmdPdu) : Prop where
  headerLength : pdu.rlcAmHeader.headerLength = 4 + LteRlcHeader.lisLength (lengthsOf f)
  framingInfo : pdu.rlcAmHeader.framingInfo = framingOf f
  sequenceNumber : pdu.rlcAmHeader.sequenceNumber = n % 1024
  extensionBits : pdu.rlcAmHeader.extensionBits = LteRlcHeader.bitsFor (lengthsOf f)
  lengthIndicators : pdu.rlcAmHeader.lengthIndicators = lengthsOf f
  dataField : pdu.dataField = f.pieces.flatten

namespace Carries

variable {n : Nat} {f : Frame UInt8} {pdu : AmdPdu}

theorem polled (carries : Carries n f pdu) (pollingBit : Bool) :
    Carries n f (pdu.setPollingBit pollingBit) :=
  { carries with }

end Carries

end Ns3.Rlc
