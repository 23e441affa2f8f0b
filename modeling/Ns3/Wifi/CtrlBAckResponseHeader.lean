import Ns3.Wifi.RecipientBlockAckAgreement

/-!
# `CtrlBAckResponseHeader`

A Block Ack response. `none` is a fatal error, a failed `NS_ASSERT` on an
index, or a read beyond the frame.
-/

namespace Ns3.Wifi

inductive BlockAckVariant where
  | basic
  | compressed
  | extendedCompressed
  | multiTid
  | multiSta
  deriving DecidableEq

structure BaInfoInstance where
  aidTidInfo : Nat
  startingSeq : Nat
  bitmap : List UInt8
  ra : Vector UInt8 6
  deriving DecidableEq

namespace BaInfoInstance

def create (bitmapLen : Nat) : BaInfoInstance :=
  ⟨0, 0, List.replicate bitmapLen 0, Vector.replicate 6 0⟩

variable (info : BaInfoInstance)

def aid11 : Nat := info.aidTidInfo &&& 0x07ff

def ackType : Bool := (info.aidTidInfo >>> 11) &&& 0x0001 ≠ 0

def tidInfo : Nat := (info.aidTidInfo >>> 12) &&& 0x000f

end BaInfoInstance

/-- The type of a response, `m_variant` and `m_bitmapLen`, and what it says. -/
structure CtrlBAckResponseHeader where
  baAckPolicy : Bool
  variant : BlockAckVariant
  bitmapLen : List Nat
  tidInfo : Nat
  baInfo : List BaInfoInstance
  deriving DecidableEq

namespace CtrlBAckResponseHeader

variable (h : CtrlBAckResponseHeader)

def setType (variant : BlockAckVariant) (bitmapLen : List Nat) : CtrlBAckResponseHeader :=
  { h with variant, bitmapLen, baInfo := bitmapLen.map .create }

/-- The asserts on an index. -/
def inRange (index : Nat) : Bool :=
  (h.variant = .multiSta || index = 0) && index < h.baInfo.length

def info (index : Nat) : BaInfoInstance := h.baInfo.getD index (.create 0)

def lenOf (index : Nat) : Nat := h.bitmapLen.getD index 0

def setInfo (index : Nat) (info : BaInfoInstance) : CtrlBAckResponseHeader :=
  { h with baInfo := h.baInfo.set index info }

/-! ## Bitmaps -/

/-- The number of MPDUs that a bitmap has room for. -/
def nAckedMpdus (index : Nat) : Nat :=
  if h.variant = .basic then h.lenOf index * 8 / 16 else h.lenOf index * 8

def isInBitmap (seq index : Nat) : Bool :=
  relative seq (h.info index).startingSeq < h.nAckedMpdus index

def indexInBitmap (seq index : Nat) : Nat :=
  if (h.info index).startingSeq ≤ seq then seq - (h.info index).startingSeq
  else 4096 - (h.info index).startingSeq + seq

def bitMask (i : Nat) : UInt8 := 1 <<< UInt8.ofNat (i % 8)

def setBit (bitmap : List UInt8) (i : Nat) : List UInt8 :=
  bitmap.modify (i / 8) fun byte => byte ||| bitMask i

def hasBit (bitmap : List UInt8) (i : Nat) : Bool :=
  bitmap.getD (i / 8) 0 &&& bitMask i ≠ 0

def setReceivedPacket (seq index : Nat) : Option CtrlBAckResponseHeader :=
  if !h.inRange index then none
  else if !h.isInBitmap seq index then some h
  else
    let info := h.info index
    let i := h.indexInBitmap seq index
    match h.variant with
    | .basic => some (h.setInfo index { info with bitmap := setBit info.bitmap (i * 2 * 8) })
    | .compressed | .extendedCompressed | .multiSta =>
      some (h.setInfo index { info with bitmap := setBit info.bitmap i })
    | .multiTid => none

def isPacketReceived (seq index : Nat) : Option Bool :=
  if !h.inRange index then none
  else
    let info := h.info index
    if h.variant = .multiSta ∧ info.ackType ∧ info.tidInfo = 14 then some true
    else if !h.isInBitmap seq index then some false
    else
      match h.variant with
      | .basic => some false
      | .compressed | .extendedCompressed | .multiSta =>
        some (hasBit info.bitmap (h.indexInBitmap seq index))
      | .multiTid => none

def setStartingSequence (seq index : Nat) : Option CtrlBAckResponseHeader :=
  if h.inRange index then some (h.setInfo index { h.info index with startingSeq := seq }) else none

def resetBitmap (index : Nat) : Option CtrlBAckResponseHeader :=
  if h.inRange index then
    some (h.setInfo index { h.info index with bitmap := List.replicate (h.lenOf index) 0 })
  else none

/-! ## Serialization -/

def writeHtolsbU16 (n : Nat) : List UInt8 := [UInt8.ofNat n, UInt8.ofNat (n / 256)]

def readLsbtohU16 : List UInt8 → Option (Nat × List UInt8)
  | low :: high :: rest => some (low.toNat + 256 * high.toNat, rest)
  | _ => none

def readBytes (count : Nat) (bytes : List UInt8) : Option (List UInt8 × List UInt8) :=
  if count ≤ bytes.length then some (bytes.take count, bytes.drop count) else none

/-- The bits 1 to 4 of the control field. -/
def variantCode : BlockAckVariant → Nat
  | .basic => 0
  | .compressed => 0x02
  | .extendedCompressed => 0x01
  | .multiTid => 0x03
  | .multiSta => 0x0b

def getBaControl : Nat :=
  (if h.baAckPolicy then 1 else 0) ||| variantCode h.variant <<< 1 |||
    if h.variant ≠ .multiSta then (h.tidInfo <<< 12) &&& 0xf000 else 0

/-- The types that `SetBaControl` sets, with the lengths of their bitmaps. -/
def setBaControl (ba : Nat) : Option CtrlBAckResponseHeader :=
  let h := { h with baAckPolicy := (ba &&& 0x01) = 1 }
  let code := (ba >>> 1) &&& 0x0f
  let tidInfo := (ba >>> 12) &&& 0x0f
  if code = 0x03 then some { h.setType .multiTid [] with tidInfo }
  else if code = 0x01 then some { h.setType .extendedCompressed [8] with tidInfo }
  else if code = 0x02 then some { h.setType .compressed [8] with tidInfo }
  else if code = 0 then some { h.setType .basic [128] with tidInfo }
  else if code = 0x0b then some (h.setType .multiSta [])
  else none

/-- The fragment number for the length of a bitmap. -/
def fragmentNumber (variant : BlockAckVariant) (bitmapLen : Nat) : Nat :=
  match variant with
  | .compressed => if bitmapLen = 32 then 0x0004 else 0
  | .multiSta =>
    if bitmapLen = 16 then 0x0002
    else if bitmapLen = 32 then 0x0004
    else if bitmapLen = 4 then 0x0006
    else 0
  | _ => 0

/-- `GetStartingSequenceControl` for an info and the length of its bitmap. -/
def startingSequenceControl (variant : BlockAckVariant) (bitmapLen : Nat)
    (info : BaInfoInstance) : Nat :=
  ((info.startingSeq <<< 4) &&& 0xfff0) ||| fragmentNumber variant bitmapLen

/-- The length of the bitmap that a control field has, of a compressed or a Multi-STA response. -/
def lenOfControl (variant : BlockAckVariant) (seqControl : Nat) : Option Nat :=
  if seqControl &&& 0x0001 = 1 then none
  else if (seqControl >>> 3) &&& 0x0001 ≠ 0 then none
  else
    match (seqControl >>> 1) &&& 0x0003 with
    | 0 => some 8
    | 1 => if variant = .multiSta then some 16 else none
    | 2 => some 32
    | _ => if variant = .multiSta then some 4 else none

/-- The type that the control field of a compressed response sets. -/
def setTypeOf (seqControl : Nat) : Option CtrlBAckResponseHeader :=
  if h.variant = .compressed then
    (lenOfControl .compressed seqControl).map fun bitmapLen => h.setType .compressed [bitmapLen]
  else some h

/-- `SetStartingSequenceControl`, when the response has one info. -/
def setStartingSequenceControl (seqControl : Nat) : Option CtrlBAckResponseHeader := do
  let h ← h.setTypeOf seqControl
  if h.inRange 0 then
    some (h.setInfo 0 { h.info 0 with startingSeq := (seqControl >>> 4) &&& 0x0fff })
  else none

/-- A Per AID TID Info subfield. -/
def serializeInfo (bitmapLen : Nat) (info : BaInfoInstance) : List UInt8 :=
  writeHtolsbU16 info.aidTidInfo ++
    if info.aid11 ≠ 2045 then
      if info.bitmap = [] then []
      else writeHtolsbU16 (startingSequenceControl .multiSta bitmapLen info) ++ info.bitmap
    else [0, 0, 0, 0] ++ info.ra.toList

def serialize : Option (List UInt8) :=
  match h.variant with
  | .basic | .compressed | .extendedCompressed =>
    if h.inRange 0 then
      some (writeHtolsbU16 h.getBaControl ++
        writeHtolsbU16 (startingSequenceControl h.variant (h.lenOf 0) (h.info 0)) ++
        (h.info 0).bitmap)
    else none
  | .multiSta =>
    if h.baInfo.length = h.bitmapLen.length then
      some (writeHtolsbU16 h.getBaControl ++
        (List.zipWith serializeInfo h.bitmapLen h.baInfo).flatten)
    else none
  | .multiTid => none

/-- A Per AID TID Info subfield with the length of its bitmap. -/
def deserializeInfo (bytes : List UInt8) : Option ((Nat × BaInfoInstance) × List UInt8) := do
  let (aidTidInfo, bytes) ← readLsbtohU16 bytes
  let info := { BaInfoInstance.create 0 with aidTidInfo }
  if info.aid11 ≠ 2045 then
    if !info.ackType ∧ info.tidInfo < 8 then
      let (seqControl, bytes) ← readLsbtohU16 bytes
      let bitmapLen ← lenOfControl .multiSta seqControl
      let (bitmap, bytes) ← readBytes bitmapLen bytes
      return ((bitmapLen, { info with bitmap, startingSeq := (seqControl >>> 4) &&& 0x0fff }),
        bytes)
    else return ((0, info), bytes)
  else
    let (_, bytes) ← readBytes 4 bytes
    let (ra, bytes) ← readBytes 6 bytes
    return ((8, { info with ra := .ofFn fun i => ra.getD i 0 }), bytes)

/-- The loop over the subfields. Each takes at least two bytes. -/
def deserializeInfos : (rounds : Nat) → List UInt8 → Option (List (Nat × BaInfoInstance))
  | _, [] => some []
  | 0, _ => none
  | rounds + 1, bytes => do
    let (first, bytes) ← deserializeInfo bytes
    let rest ← deserializeInfos rounds bytes
    return first :: rest

def deserialize (bytes : List UInt8) : Option CtrlBAckResponseHeader := do
  let (ba, bytes) ← readLsbtohU16 bytes
  let h ← h.setBaControl ba
  match h.variant with
  | .basic | .compressed | .extendedCompressed =>
    let (seqControl, bytes) ← readLsbtohU16 bytes
    let h ← h.setStartingSequenceControl seqControl
    let (bitmap, _) ← readBytes (h.lenOf 0) bytes
    return h.setInfo 0 { h.info 0 with bitmap }
  | .multiSta =>
    let infos ← deserializeInfos bytes.length bytes
    return { h with bitmapLen := infos.map Prod.fst, baInfo := infos.map Prod.snd }
  | .multiTid => none

end CtrlBAckResponseHeader

/-- `FillBlockAckBitmap` -/
def RecipientBlockAckAgreement.fillBlockAckBitmap {Body : Type}
    (s : RecipientBlockAckAgreement Body) (blockAckHeader : CtrlBAckResponseHeader)
    (index : Nat) : Option CtrlBAckResponseHeader := do
  if blockAckHeader.variant = .basic ∨ blockAckHeader.variant = .multiTid then none
  let ssn := s.scoreboard.winStart
  let h ← blockAckHeader.setStartingSequence ssn index
  let h ← h.resetBitmap index
  (List.range s.scoreboard.winSize).foldlM (fun h i =>
    if s.scoreboard.bitAt i then h.setReceivedPacket ((ssn + i) % 4096) index else some h) h

end Ns3.Wifi
