import Ns3.Rlc.AmPdu

/-!
# `Serialize` and `Deserialize` of `LteRlcAmHeader`

The whole header, with the fields of re-segmentation. The length indicators of a
data PDU are packed as those of `LteRlcHeader` are. The NACKs of a STATUS PDU
take twelve bits each, two of them in three bytes, and the first bit of an odd
one is the last of the byte before.
-/

namespace Ns3.Rlc

/-- `LteRlcAmHeader` with all its fields. Sequence numbers are the values of their
`SequenceNumber10`. -/
structure AmHeader where
  headerLength : Nat
  dataControlBit : Nat
  resegmentationFlag : Nat
  pollingBit : Nat
  framingInfo : Nat
  sequenceNumber : Nat
  lastSegmentFlag : Nat
  segmentOffset : Nat
  lastOffset : Nat
  extensionBits : List Nat
  lengthIndicators : List Nat
  controlPduType : Nat
  ackSn : Nat
  nackSnList : List Nat
  deriving DecidableEq

namespace AmHeader

def controlPdu : Nat := 0
def dataPdu : Nat := 1

def statusPdu : Nat := 0

def segment : Nat := 1

/-- The last segment flag is not initialized. -/
def create (lastSegmentFlag : Nat) : AmHeader :=
  ⟨0, 0xff, 0xff, 0xff, 0xff, 0xfffa % 1024, lastSegmentFlag, 0xffff, 0xffff, [], [], 0xff,
    0xffff % 1024, []⟩

def setDataPdu (h : AmHeader) : AmHeader :=
  { h with headerLength := 4, dataControlBit := dataPdu }

def setControlPdu (h : AmHeader) (controlPduType : Nat) : AmHeader :=
  { h with headerLength := 2, dataControlBit := controlPdu, controlPduType := controlPduType }

def setFramingInfo (h : AmHeader) (framingInfo : Nat) : AmHeader :=
  { h with framingInfo := framingInfo &&& 0x03 }

def setSequenceNumber (h : AmHeader) (sequenceNumber : SequenceNumber10) : AmHeader :=
  { h with sequenceNumber := sequenceNumber.value }

def setResegmentationFlag (h : AmHeader) (resegFlag : Nat) : AmHeader :=
  { h with resegmentationFlag := resegFlag &&& 0x01 }

def setPollingBit (h : AmHeader) (pollingBit : Nat) : AmHeader :=
  { h with pollingBit := pollingBit &&& 0x01 }

def setLastSegmentFlag (h : AmHeader) (lsf : Nat) : AmHeader :=
  { h with lastSegmentFlag := lsf &&& 0x01 }

def setSegmentOffset (h : AmHeader) (segmentOffset : Nat) : AmHeader :=
  { h with segmentOffset := segmentOffset &&& 0x7FFF }

def setAckSn (h : AmHeader) (ackSn : SequenceNumber10) : AmHeader :=
  { h with ackSn := ackSn.value }

/-- `m_headerLength` is a `uint16_t`. -/
def grow (h : AmHeader) (bytes : Nat) : AmHeader :=
  { h with headerLength := (h.headerLength + bytes) % 65536 }

def pushExtensionBit (h : AmHeader) (extensionBit : Nat) : AmHeader :=
  let h := { h with extensionBits := h.extensionBits ++ [extensionBit] }
  if 1 < h.extensionBits.length then
    if h.extensionBits.length % 2 = 1 then h.grow 1 else h.grow 2
  else
    h

def pushLengthIndicator (h : AmHeader) (lengthIndicator : Nat) : AmHeader :=
  { h with lengthIndicators := h.lengthIndicators ++ [lengthIndicator] }

def pushNack (h : AmHeader) (nack : Nat) : AmHeader :=
  let h := { h with nackSnList := h.nackSnList ++ [nack] }
  if h.nackSnList.length % 2 = 0 then h.grow 1 else h.grow 2

def getSerializedSize (h : AmHeader) : Nat := h.headerLength

/-! ## `Serialize` -/

/-- The loop over the NACKs. The first bit of an odd one has been written. -/
def writeNacks : List Nat → List UInt8
  | [] => []
  | [oddNack] => [writeU8 ((oddNack >>> 1) &&& 0xFF), writeU8 ((oddNack <<< 7) &&& 0x80)]
  | [oddNack, evenNack] =>
    [writeU8 ((oddNack >>> 1) &&& 0xFF),
      writeU8 (((oddNack <<< 7) &&& 0x80) ||| 0x40 ||| ((evenNack >>> 5) &&& 0x1F)),
      writeU8 ((evenNack <<< 3) &&& 0xF8)]
  | oddNack :: evenNack :: nextNack :: nacks =>
    writeU8 ((oddNack >>> 1) &&& 0xFF) ::
    writeU8 (((oddNack <<< 7) &&& 0x80) ||| 0x40 ||| ((evenNack >>> 5) &&& 0x1F)) ::
    writeU8 (((evenNack <<< 3) &&& 0xF8) ||| 0x04 ||| ((nextNack >>> 9) &&& 0x01)) ::
    writeNacks (nextNack :: nacks)

def serialize (h : AmHeader) : List UInt8 :=
  if h.dataControlBit = dataPdu then
    writeU8 (((dataPdu <<< 7) &&& 0x80) ||| ((h.resegmentationFlag <<< 6) &&& 0x40) |||
      ((h.pollingBit <<< 5) &&& 0x20) ||| ((h.framingInfo <<< 3) &&& 0x18) |||
      ((h.extensionBits.headD 0 <<< 2) &&& 0x04) ||| ((h.sequenceNumber >>> 8) &&& 0x0003)) ::
    writeU8 (h.sequenceNumber &&& 0x00FF) ::
    writeU8 (((h.lastSegmentFlag <<< 7) &&& 0x80) ||| ((h.segmentOffset >>> 8) &&& 0x007F)) ::
    writeU8 (h.segmentOffset &&& 0x00FF) ::
    LteRlcHeader.writeLis h.extensionBits.tail h.lengthIndicators
  else
    writeU8 (((controlPdu <<< 7) &&& 0x80) ||| ((h.controlPduType <<< 4) &&& 0x70) |||
      ((h.ackSn >>> 6) &&& 0x0F)) ::
    match h.nackSnList with
    | [] => [writeU8 ((h.ackSn <<< 2) &&& 0xFC)]
    | nack :: nacks =>
      writeU8 (((h.ackSn <<< 2) &&& 0xFC) ||| 0x02 ||| ((nack >>> 9) &&& 0x01)) ::
      writeNacks (nack :: nacks)

/-! ## `Deserialize` -/

/-- The loop over the NACKs, from the byte with the end of an odd one on, with the
bytes it adds to the length. `none` is a read past the end of the packet. -/
def readNacks (byte : UInt8) : List UInt8 → Option (List Nat × Nat)
  | [] => if (readU8 byte &&& 0x40) >>> 6 = 1 then none else some ([], 0)
  | nextByte :: bytes =>
    if (readU8 byte &&& 0x40) >>> 6 = 1 then
      let evenNack := ((readU8 byte &&& 0x1F) <<< 5) ||| ((readU8 nextByte &&& 0xF8) >>> 3)
      if (readU8 nextByte &&& 0x04) >>> 2 = 1 then
        match bytes with
        | lastByte :: finalByte :: bytes => do
          let oddNack := ((readU8 nextByte &&& 0x01) <<< 9) ||| (readU8 lastByte <<< 1) |||
            ((readU8 finalByte &&& 0x80) >>> 7)
          let (nacks, count) ← readNacks finalByte bytes
          return (evenNack :: oddNack :: nacks, count + 3)
        | _ => none
      else
        some ([evenNack], 1)
    else
      some ([], 0)

/-- The part of a data PDU. `size` is the size of the whole packet. -/
def deserializeData (h : AmHeader) (size : Nat) (byte1 : UInt8) : List UInt8 → Option AmHeader
  | byte2 :: byte3 :: byte4 :: bytes => do
    let extensionBit := (readU8 byte1 &&& 0x04) >>> 2
    let h := { h with
      headerLength := 1 + 3
      resegmentationFlag := (readU8 byte1 &&& 0x40) >>> 6
      pollingBit := (readU8 byte1 &&& 0x20) >>> 5
      framingInfo := (readU8 byte1 &&& 0x18) >>> 3
      sequenceNumber := ((readU8 byte1 &&& 0x03) <<< 8) ||| readU8 byte2
      lastSegmentFlag := (readU8 byte3 &&& 0x80) >>> 7
      segmentOffset := (readU8 byte3 &&& 0x7F) ||| readU8 byte4
      extensionBits := h.extensionBits ++ [extensionBit] }
    if extensionBit = LteRlcHeader.dataFieldFollows then
      return h
    else
      let (es, lis, count) ← LteRlcHeader.readLis bytes
      let h := { h with
        headerLength := (h.headerLength + count) % 65536
        extensionBits := h.extensionBits ++ es
        lengthIndicators := h.lengthIndicators ++ lis }
      return if h.resegmentationFlag = segment then
          { h with lastOffset := (((h.segmentOffset + size : Int) - h.headerLength) % 65536).toNat }
        else h
  | _ => none

/-- The part of a STATUS PDU. -/
def deserializeStatus (h : AmHeader) (byte1 : UInt8) : List UInt8 → Option AmHeader
  | byte2 :: bytes => do
    let h := { h with
      controlPduType := (readU8 byte1 &&& 0x70) >>> 4
      ackSn := ((readU8 byte1 &&& 0x0F) <<< 6) ||| ((readU8 byte2 &&& 0xFC) >>> 2) }
    if (readU8 byte2 &&& 0x02) >>> 1 = 1 then
      match bytes with
      | byte3 :: byte4 :: bytes =>
        let nack := ((readU8 byte2 &&& 0x01) <<< 9) ||| (readU8 byte3 <<< 1) |||
          ((readU8 byte4 &&& 0x80) >>> 7)
        let (nacks, count) ← readNacks byte4 bytes
        return { h with
          headerLength := (4 + count) % 65536
          nackSnList := h.nackSnList ++ nack :: nacks }
      | _ => none
    else
      return { h with headerLength := 1 + 1 }
  | _ => none

def deserialize (h : AmHeader) : List UInt8 → Option AmHeader
  | [] => none
  | byte1 :: bytes =>
    let h := { h with dataControlBit := (readU8 byte1 &&& 0x80) >>> 7 }
    if h.dataControlBit = dataPdu then h.deserializeData (1 + bytes.length) byte1 bytes
    else h.deserializeStatus byte1 bytes

end AmHeader

end Ns3.Rlc
