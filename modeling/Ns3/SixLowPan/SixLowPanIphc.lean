import Ns3.Library.ByteReader
import Ns3.Library.PrefixBits

/-!
# IPv6 addresses, prefixes and link-layer addresses

`none` is a failed `NS_ABORT_MSG`.
-/

namespace Ns3.SixLowPan

open PrefixBits

structure Ipv6Address where
  bytes : List UInt8
  length_eq : bytes.length = 16
  deriving DecidableEq

/-- `Ipv6Prefix`, with what its constructors assert of the length. -/
structure Ipv6Prefix where
  bytes : List UInt8
  length_eq : bytes.length = 16
  prefixLength : Nat
  le : prefixLength ≤ 128
  compatible : ∀ i < 128, prefixLength ≤ i → bit bytes i = false

/-- The address types of the link layer. -/
inductive LinkAddress
  | mac8 (a : UInt8)
  | mac16 (a b : UInt8)
  | mac48 (a b c d e f : UInt8)
  | mac64 (a b c d e f g h : UInt8)
  deriving DecidableEq

/-- The last eight bytes of the addresses made of a link-layer address. -/
def LinkAddress.interfaceId : LinkAddress → List UInt8
  | mac8 a => [0, 0, 0, 0xff, 0xfe, 0, 0, a]
  | mac16 a b => [0, 0, 0, 0xff, 0xfe, 0, a, b]
  | mac48 a b c d e f => [a ^^^ 0x02, b, c, 0xff, 0xfe, d, e, f]
  | mac64 a b c d e f g h => [a, b, c, d, e, f, g, h]

theorem LinkAddress.length_interfaceId (mac : LinkAddress) : mac.interfaceId.length = 8 := by
  cases mac <;> rfl

namespace Ipv6Address

/-- `Deserialize`, from an array whose bytes are zero where nothing was written. -/
def deserialize (buf : List UInt8) : Ipv6Address :=
  ⟨(buf ++ List.replicate 16 0).take 16, by simp⟩

def getAny : Ipv6Address := ⟨List.replicate 16 0, rfl⟩

def getOnes : Ipv6Address := ⟨List.replicate 16 0xff, rfl⟩

variable (a : Ipv6Address)

def isMulticast : Bool := a.bytes.getD 0 0 = 0xff

def combinePrefix (p : Ipv6Prefix) : Ipv6Address :=
  ⟨List.zipWith (· &&& ·) a.bytes p.bytes, by
    rw [List.length_zipWith, a.length_eq, p.length_eq, Nat.min_self]⟩

/-- The bytes of the prefix are its mask. -/
def hasPrefix (p : Ipv6Prefix) : Bool := a.combinePrefix p = getOnes.combinePrefix p

/-- `Ipv6Prefix (64)` -/
def halfPrefix : Ipv6Prefix where
  bytes := List.replicate 8 0xff ++ List.replicate 8 0
  length_eq := rfl
  prefixLength := 64
  le := by decide
  compatible := by decide

/-- `fe80::` -/
def linkLocal : Ipv6Address := deserialize [0xfe, 0x80]

def isLinkLocal : Bool := a.combinePrefix halfPrefix = linkLocal

/-- The overloads of `MakeAutoconfiguredAddress` for the types of addresses, and the test behind
them. -/
def makeAutoconfiguredAddress (addr : LinkAddress) (p : Ipv6Prefix) : Option Ipv6Address :=
  let ipv6Addr := deserialize ((getOnes.combinePrefix p).bytes.take 8 ++ addr.interfaceId)
  if ipv6Addr = getAny then none else some ipv6Addr

def makeAutoconfiguredLinkLocalAddress (addr : LinkAddress) : Ipv6Address :=
  deserialize (linkLocal.bytes.take 8 ++ addr.interfaceId)

variable {a} {b : Ipv6Address}

theorem ext_bytes (same : a.bytes = b.bytes) : a = b := by
  cases a
  cases b
  cases same
  rfl

theorem deserialize_bytes (a : Ipv6Address) : deserialize a.bytes = a := by
  apply ext_bytes
  exact List.take_left' a.length_eq

theorem bytes_deserialize {buf : List UInt8} (full : buf.length = 16) :
    (deserialize buf).bytes = buf := List.take_left' full

theorem ext_bits (same : ∀ i < 128, bit a.bytes i = bit b.bytes i) : a = b := by
  apply ext_bytes
  apply ext (a.length_eq.trans b.length_eq.symm)
  rwa [a.length_eq]

theorem bit_getOnes : ∀ i < 128, bit getOnes.bytes i = true := by decide

theorem getOnes_combinePrefix (p : Ipv6Prefix) : (getOnes.combinePrefix p).bytes = p.bytes := by
  have length := (getOnes.combinePrefix p).length_eq
  apply ext (length.trans p.length_eq.symm)
  intro i lt
  rw [length] at lt
  unfold combinePrefix
  simp [bit_zipWith_and (getOnes.length_eq.trans p.length_eq.symm), bit_getOnes i lt]

theorem bit_halfPrefix : ∀ i < 128, bit halfPrefix.bytes i = decide (i < 64) := by
  decide

theorem bit_linkLocal : ∀ i < 128, bit linkLocal.bytes i = decide (i < 7 ∨ i = 8) := by decide

theorem take_of_isLinkLocal (local_ : a.isLinkLocal = true) :
    a.bytes.take 8 = linkLocal.bytes.take 8 := by
  have same := congrArg bytes (of_decide_eq_true local_)
  have lengths : (a.bytes.take 8).length = (linkLocal.bytes.take 8).length := by
    simp [a.length_eq, linkLocal.length_eq]
  apply ext lengths
  intro i lt
  rw [List.length_take, a.length_eq] at lt
  have here := congrArg (bit · i) same
  unfold combinePrefix at here
  rw [bit_zipWith_and (a.length_eq.trans halfPrefix.length_eq.symm),
    bit_halfPrefix i (by omega), decide_eq_true (by omega), Bool.and_true] at here
  rw [bit_take (by omega), bit_take (by omega), here]

end Ipv6Address

end Ns3.SixLowPan

/-!
## The headers `SixLowPanIphc` and `SixLowPanUdpNhcExtension`

The fields of `m_baseFormat` are kept apart. A reader fails when it reads past the
end of a packet, which is a failed `NS_ASSERT`.
-/

namespace Ns3.SixLowPan

open ByteReader (Reader Reads)

/-- `TrafficClassFlowLabel_e` -/
inductive TrafficClassFlowLabel
  | full
  | dscpElided
  | flElided
  | elided
  deriving DecidableEq

/-- `Hlim_e` -/
inductive Hlim
  | inline_
  | compr1
  | compr64
  | compr255
  deriving DecidableEq

/-- `HeaderCompression_e` -/
inductive HeaderCompression
  | inline_
  | compr64
  | compr16
  | compr0
  deriving DecidableEq

/-- `Ports_e` -/
inductive Ports
  | inline_
  | allSrcLastDst
  | lastSrcAllDst
  | lastSrcLastDst
  deriving DecidableEq

def TrafficClassFlowLabel.value : TrafficClassFlowLabel → Nat
  | full => 0
  | dscpElided => 1
  | flElided => 2
  | elided => 3

def TrafficClassFlowLabel.ofValue (n : Nat) : TrafficClassFlowLabel :=
  match n % 4 with
  | 0 => full
  | 1 => dscpElided
  | 2 => flElided
  | _ => elided

def Hlim.value : Hlim → Nat
  | inline_ => 0
  | compr1 => 1
  | compr64 => 2
  | compr255 => 3

def Hlim.ofValue (n : Nat) : Hlim :=
  match n % 4 with
  | 0 => inline_
  | 1 => compr1
  | 2 => compr64
  | _ => compr255

def HeaderCompression.value : HeaderCompression → Nat
  | inline_ => 0
  | compr64 => 1
  | compr16 => 2
  | compr0 => 3

def HeaderCompression.ofValue (n : Nat) : HeaderCompression :=
  match n % 4 with
  | 0 => inline_
  | 1 => compr64
  | 2 => compr16
  | _ => compr0

def Ports.value : Ports → Nat
  | inline_ => 0
  | allSrcLastDst => 1
  | lastSrcAllDst => 2
  | lastSrcLastDst => 3

def Ports.ofValue (n : Nat) : Ports :=
  match n % 4 with
  | 0 => inline_
  | 1 => allSrcLastDst
  | 2 => lastSrcAllDst
  | _ => lastSrcLastDst

/-! ## `SixLowPanIphc` -/

/-- `SixLowPanIphc`, with its inline parts as arrays of 16 bytes. -/
structure SixLowPanIphc where
  tf : TrafficClassFlowLabel
  nh : Bool
  hlim : Hlim
  cid : Bool
  sac : Bool
  sam : HeaderCompression
  m : Bool
  dac : Bool
  dam : HeaderCompression
  srcdstContextId : UInt8
  ecn : Nat
  dscp : Nat
  flowLabel : Nat
  nextHeader : UInt8
  hopLimit : UInt8
  srcInlinePart : List UInt8
  dstInlinePart : List UInt8
  deriving DecidableEq

namespace SixLowPanIphc

variable (h : SixLowPanIphc)

def baseFormat : Nat :=
  0x6000 + h.tf.value * 2 ^ 11 + h.nh.toNat * 2 ^ 10 + h.hlim.value * 2 ^ 8 + h.cid.toNat * 2 ^ 7 +
    h.sac.toNat * 2 ^ 6 + h.sam.value * 2 ^ 4 + h.m.toNat * 2 ^ 3 + h.dac.toNat * 2 ^ 2 +
    h.dam.value

def getSrcContextId : Nat := h.srcdstContextId.toNat / 2 ^ 4

def getDstContextId : Nat := h.srcdstContextId.toNat % 2 ^ 4

def getSerializedSize : Nat :=
  2 + (if h.cid then 1 else 0) + (match h.tf with
    | .full => 4
    | .dscpElided => 3
    | .flElided => 1
    | .elided => 0) +
    (if h.nh then 0 else 1) + (if h.hlim = .inline_ then 1 else 0) +
    (match h.sam with
    | .inline_ => if h.sac then 0 else 16
    | .compr64 => 8
    | .compr16 => 2
    | .compr0 => 0) +
    if h.m then
      match h.dam with
      | .inline_ => if h.dac then 6 else 16
      | .compr64 => if h.dac then 0 else 6
      | .compr16 => if h.dac then 0 else 4
      | .compr0 => if h.dac then 0 else 1
    else
      match h.dam with
      | .inline_ => if h.dac then 0 else 16
      | .compr64 => 8
      | .compr16 => 2
      | .compr0 => 0

/-- How many bytes of the source are written and read. -/
def srcSize (sac : Bool) : HeaderCompression → Nat
  | .inline_ => if sac then 0 else 16
  | .compr64 => 8
  | .compr16 => 2
  | .compr0 => 0

/-- How many bytes of the destination are written and read. -/
def dstSize : Bool → HeaderCompression → Nat
  | _, .inline_ => 16
  | false, .compr64 => 8
  | false, .compr16 => 2
  | false, .compr0 => 0
  | true, .compr64 => 6
  | true, .compr16 => 4
  | true, .compr0 => 1

/-- The traffic class and the flow label. -/
def serializeTf : List UInt8 :=
  match h.tf with
  | .full => [.ofNat (h.ecn * 2 ^ 6 + h.dscp), .ofNat (h.flowLabel / 2 ^ 16),
      .ofNat (h.flowLabel / 2 ^ 8), .ofNat h.flowLabel]
  | .dscpElided => [.ofNat (h.ecn * 2 ^ 6 + h.flowLabel / 2 ^ 16), .ofNat (h.flowLabel / 2 ^ 8),
      .ofNat h.flowLabel]
  | .flElided => [.ofNat (h.ecn * 2 ^ 6 + h.dscp)]
  | .elided => []

/-- The bytes that `Serialize` writes, which may be more than `GetSerializedSize`. -/
def serialize : List UInt8 :=
  ByteReader.writeHtonU16 (.ofNat h.baseFormat) ++ ((if h.cid then [h.srcdstContextId] else []) ++
    (h.serializeTf ++ ((if h.nh then [] else [h.nextHeader]) ++
      ((if h.hlim = .inline_ then [h.hopLimit] else []) ++
        (h.srcInlinePart.take (srcSize h.sac h.sam) ++ h.dstInlinePart.take (dstSize h.m h.dam))))))

/-- The traffic class and the flow label; what is not read is zero here and not used. -/
def readTf : TrafficClassFlowLabel → Reader Unit (Nat × Nat × Nat)
  | .full => do
    let temp ← ByteReader.readU8 ()
    let high ← ByteReader.readU8 ()
    let middle ← ByteReader.readU8 ()
    let low ← ByteReader.readU8 ()
    return (temp.toNat / 2 ^ 6, temp.toNat % 2 ^ 6,
      (high.toNat * 2 ^ 8 + middle.toNat) * 2 ^ 8 + low.toNat)
  | .dscpElided => do
    let temp ← ByteReader.readU8 ()
    let middle ← ByteReader.readU8 ()
    let low ← ByteReader.readU8 ()
    return (temp.toNat / 2 ^ 6, 0, (temp.toNat % 2 ^ 6 * 2 ^ 8 + middle.toNat) * 2 ^ 8 + low.toNat)
  | .flElided => do
    let temp ← ByteReader.readU8 ()
    return (temp.toNat / 2 ^ 6, temp.toNat % 2 ^ 6, 0)
  | .elided => return (0, 0, 0)

def readSrcdstContextId (cid : Bool) : Reader Unit UInt8 :=
  if cid then ByteReader.readU8 () else return 0

def readNextHeader (nh : Bool) : Reader Unit UInt8 :=
  if nh then return 0 else ByteReader.readU8 ()

def readHopLimit : Hlim → Reader Unit UInt8
  | .inline_ => ByteReader.readU8 ()
  | .compr1 => return 1
  | .compr64 => return 64
  | .compr255 => return 255

/-- An array whose bytes were set to zero. -/
def readInlinePart (size : Nat) : Reader Unit (List UInt8) := do
  let part ← ByteReader.readBytes () size
  return part ++ List.replicate (16 - size) 0

/-- `Deserialize` -/
def deserialize : Reader Unit SixLowPanIphc := do
  let format ← ByteReader.readNtohU16 ()
  let base := format.toNat
  let cid := decide (base / 2 ^ 7 % 2 = 1)
  let tf := TrafficClassFlowLabel.ofValue (base / 2 ^ 11)
  let nh := decide (base / 2 ^ 10 % 2 = 1)
  let hlim := Hlim.ofValue (base / 2 ^ 8)
  let sac := decide (base / 2 ^ 6 % 2 = 1)
  let sam := HeaderCompression.ofValue (base / 2 ^ 4)
  let m := decide (base / 2 ^ 3 % 2 = 1)
  let dac := decide (base / 2 ^ 2 % 2 = 1)
  let dam := HeaderCompression.ofValue base
  let srcdstContextId ← readSrcdstContextId cid
  let (ecn, dscp, flowLabel) ← readTf tf
  let nextHeader ← readNextHeader nh
  let hopLimit ← readHopLimit hlim
  let srcInlinePart ← readInlinePart (srcSize sac sam)
  let dstInlinePart ← readInlinePart (dstSize m dam)
  return ⟨tf, nh, hlim, cid, sac, sam, m, dac, dam, srcdstContextId, ecn, dscp, flowLabel,
    nextHeader, hopLimit, srcInlinePart, dstInlinePart⟩

/-- `AddHeader`: room for the size of the header is made in front of the packet, and what is
written past it overwrites the packet. -/
def addHeader (p : List UInt8) : Option (List UInt8) :=
  if h.serialize.length ≤ h.getSerializedSize + p.length then
    some (h.serialize ++ p.drop (h.serialize.length - h.getSerializedSize))
  else none

/-- `RemoveHeader` -/
def removeHeader (p : List UInt8) : Option (SixLowPanIphc × List UInt8) :=
  match deserialize p with
  | .ok (h, _) => if h.getSerializedSize ≤ p.length then some (h, p.drop h.getSerializedSize) else none
  | .error _ => none

end SixLowPanIphc

end Ns3.SixLowPan
