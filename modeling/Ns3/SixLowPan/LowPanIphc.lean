import Ns3.SixLowPan.SixLowPanIphc
import Ns3.Time

/-!
# `CompressLowPanIphc` and `DecompressLowPanIphc`

For packets whose IPv6 header is followed by UDP or by a next header that is not
compressed. The headers in front of and behind the compression stay values.
-/

namespace Ns3.SixLowPan

open ByteReader (Reader)

open ByteReader

/-! ## UDP -/

structure UdpHeader where
  sourcePort : UInt16
  destinationPort : UInt16
  checksum : UInt16
  deriving DecidableEq

/-- `WriteU16` -/
def writeU16 (value : UInt16) : List UInt8 := [.ofNat value.toNat, .ofNat (value.toNat / 2 ^ 8)]

/-- `ReadU16` -/
def readU16 : Reader Unit UInt16 := do
  let low ← readU8 ()
  let high ← readU8 ()
  return .ofNat (low.toNat + high.toNat * 2 ^ 8)

structure SixLowPanUdpNhcExtension where
  c : Bool
  ports : Ports
  srcPort : UInt16
  dstPort : UInt16
  checksum : UInt16
  deriving DecidableEq

namespace SixLowPanUdpNhcExtension

variable (h : SixLowPanUdpNhcExtension)

def baseFormat : Nat := 0xf0 + h.c.toNat * 2 ^ 2 + h.ports.value

def serializePorts : List UInt8 :=
  match h.ports with
  | .inline_ => writeHtonU16 h.srcPort ++ writeHtonU16 h.dstPort
  | .allSrcLastDst => writeHtonU16 h.srcPort ++ [.ofNat h.dstPort.toNat]
  | .lastSrcAllDst => [.ofNat h.srcPort.toNat] ++ writeHtonU16 h.dstPort
  | .lastSrcLastDst => [.ofNat (h.srcPort.toNat % 2 ^ 4 * 2 ^ 4 + h.dstPort.toNat % 2 ^ 4)]

def serialize : List UInt8 :=
  [.ofNat h.baseFormat] ++ (h.serializePorts ++ if h.c then [] else writeU16 h.checksum)

def readPorts : Ports → Reader Unit (UInt16 × UInt16)
  | .inline_ => do
    let srcPort ← readNtohU16 ()
    let dstPort ← readNtohU16 ()
    return (srcPort, dstPort)
  | .allSrcLastDst => do
    let srcPort ← readNtohU16 ()
    let dstPort ← readU8 ()
    return (srcPort, .ofNat dstPort.toNat)
  | .lastSrcAllDst => do
    let srcPort ← readU8 ()
    let dstPort ← readNtohU16 ()
    return (.ofNat srcPort.toNat, dstPort)
  | .lastSrcLastDst => do
    let temp ← readU8 ()
    return (.ofNat (temp.toNat / 2 ^ 4), .ofNat (temp.toNat % 2 ^ 4))

def readChecksum (c : Bool) : Reader Unit UInt16 := if c then return 0 else readU16

def deserialize : Reader Unit SixLowPanUdpNhcExtension := do
  let base ← readU8 ()
  let c := decide (base.toNat / 2 ^ 2 % 2 = 1)
  let ports := Ports.ofValue base.toNat
  let (srcPort, dstPort) ← readPorts ports
  let checksum ← readChecksum c
  return ⟨c, ports, srcPort, dstPort, checksum⟩

end SixLowPanUdpNhcExtension

/-- `CompressLowPanUdpNhc`, up to the header that it adds. -/
def compressLowPanUdpNhc (omitChecksum : Bool) (udpHeader : UdpHeader) :
    SixLowPanUdpNhcExtension where
  c := omitChecksum
  ports :=
    let src := udpHeader.sourcePort.toNat
    let dst := udpHeader.destinationPort.toNat
    if src / 2 ^ 4 = 0xf0b ∧ dst / 2 ^ 4 = 0xf0b then .lastSrcLastDst
    else if src / 2 ^ 8 = 0xf0 ∧ dst / 2 ^ 8 ≠ 0xf0 then .lastSrcAllDst
    else if src / 2 ^ 8 ≠ 0xf0 ∧ dst / 2 ^ 8 = 0xf0 then .allSrcLastDst
    else .inline_
  srcPort := udpHeader.sourcePort
  dstPort := udpHeader.destinationPort
  checksum := udpHeader.checksum

/-- Whether checksums are computed, and the checksum of a UDP packet. -/
structure Checksums where
  enabled : Bool
  calculate : Ipv6Address → Ipv6Address → UInt16 → UInt16 → List UInt8 → UInt16

/-- The header that `DecompressLowPanUdpNhc` adds. -/
def decompressLowPanUdpNhc (checksums : Checksums) (saddr daddr : Ipv6Address)
    (encoding : SixLowPanUdpNhcExtension) (payload : List UInt8) : UdpHeader :=
  let sourcePort : UInt16 :=
    match encoding.ports with
    | .inline_ | .allSrcLastDst => encoding.srcPort
    | .lastSrcAllDst => .ofNat (0xf0 <<< 8 ||| encoding.srcPort.toNat)
    | .lastSrcLastDst => .ofNat (0xf0b <<< 4 ||| encoding.srcPort.toNat)
  let destinationPort : UInt16 :=
    match encoding.ports with
    | .inline_ | .lastSrcAllDst => encoding.dstPort
    | .allSrcLastDst => .ofNat (0xf0 <<< 8 ||| encoding.dstPort.toNat)
    | .lastSrcLastDst => .ofNat (0xf0b <<< 4 ||| encoding.dstPort.toNat)
  let checksum :=
    if checksums.enabled then
      if encoding.c then checksums.calculate saddr daddr sourcePort destinationPort payload
      else encoding.checksum
    else 0
  ⟨sourcePort, destinationPort, checksum⟩

/-! ## Packets -/

structure Ipv6Header where
  trafficClass : UInt8
  flowLabel : Nat
  payloadLength : Nat
  nextHeader : UInt8
  hopLimit : UInt8
  source : Ipv6Address
  destination : Ipv6Address
  deriving DecidableEq

/-- What follows the IPv6 header. -/
inductive Body
  | udp (header : UdpHeader) (payload : List UInt8)
  | raw (p : List UInt8)
  deriving DecidableEq

def Body.getSize : Body → Nat
  | udp _ payload => 8 + payload.length
  | raw p => p.length

structure Ipv6Packet where
  header : Ipv6Header
  body : Body
  deriving DecidableEq

/-! ## Contexts -/

structure ContextEntry where
  contextPrefix : Ipv6Prefix
  compressionAllowed : Bool
  validLifetime : Time

/-- `m_contextTable`, in the order of the identifiers, with what `AddContext` checks. -/
structure ContextTable where
  entries : List (Nat × ContextEntry)
  ids : (entries.map (·.1)).Pairwise (· < ·)
  small : ∀ e ∈ entries, e.1 ≤ 15

namespace ContextTable

variable (t : ContextTable) (now : Time)

def find (contextId : Nat) : Option ContextEntry :=
  (t.entries.find? fun e => e.1 = contextId).map (·.2)

def findUnicastCompressionContext (address : Ipv6Address) : Option (Nat × ContextEntry) :=
  t.entries.find? fun e => e.2.compressionAllowed && decide (now < e.2.validLifetime) &&
    address.hasPrefix e.2.contextPrefix

def findMulticastCompressionContext (address : Ipv6Address) : Option (Nat × ContextEntry) :=
  t.entries.find? fun e => e.2.compressionAllowed && decide (now < e.2.validLifetime) &&
    decide (e.2.contextPrefix.prefixLength ≤ 64) &&
    decide ((address.bytes.getD 3 0).toNat = e.2.contextPrefix.prefixLength) &&
    decide ((address.bytes.drop 4).take 8 = e.2.contextPrefix.bytes.take 8)

end ContextTable

/-- `(1 << bitsToClean) - 1` is the mask of the byte where the prefix ends. -/
def cleanPrefix (address : Ipv6Address) (p : Ipv6Prefix) : Ipv6Address :=
  let bytesToClean := p.prefixLength / 8
  let bitsToClean := p.prefixLength % 8
  let addressBytes := List.replicate bytesToClean 0 ++ address.bytes.drop bytesToClean
  .deserialize (if bitsToClean = 0 then addressBytes
    else addressBytes.modify bytesToClean (· &&& PrefixBits.lowBits bitsToClean))

/-- The loop over the bytes of the prefix and the masks behind it. -/
def overridePrefix (p : Ipv6Prefix) (address : List UInt8) : List UInt8 :=
  let bytesToCopy := p.prefixLength / 8
  let bitsToCopy := p.prefixLength % 8
  let copied := p.bytes.take bytesToCopy ++ address.drop bytesToCopy
  let addressBitMask := PrefixBits.lowBits (8 - bitsToCopy)
  if bitsToCopy = 0 then copied
  else copied.modify bytesToCopy fun byte =>
    (p.bytes.getD bytesToCopy 0 &&& ~~~addressBitMask) ||| (byte &&& addressBitMask)

/-! ## Addresses -/

/-- SAC and SAM or DAC and DAM, the context and the inline part. -/
structure AddressEncoding where
  stateful : Bool
  mode : HeaderCompression
  contextId : Nat
  inlinePart : List UInt8
  deriving DecidableEq

/-- The first 14 bytes of `fe80:0000:0000:0000:0000:00ff:fe00:1` -/
def unicastAddrChecker : List UInt8 := [0xfe, 0x80, 0, 0, 0, 0, 0, 0, 0, 0, 0, 0xff, 0xfe, 0]

section

variable (t : ContextTable) (now : Time) (mac : LinkAddress)

/-- A unicast address, source or destination. -/
def compressUnicast (a : Ipv6Address) : Option AddressEncoding :=
  match t.findUnicastCompressionContext now a with
  | some (contextId, context) =>
    (Ipv6Address.makeAutoconfiguredAddress mac context.contextPrefix).map fun auto =>
      if auto = a then ⟨true, .compr0, contextId, []⟩
      else
        let cleaned := (cleanPrefix a context.contextPrefix).bytes
        if (cleaned.drop 8).take 6 = [0, 0, 0, 0xff, 0xfe, 0] then
          ⟨true, .compr16, contextId, cleaned.drop 14⟩
        else ⟨true, .compr64, contextId, cleaned.drop 8⟩
  | none => some <|
    if a = .makeAutoconfiguredLinkLocalAddress mac then ⟨false, .compr0, 0, []⟩
    else if a.bytes.take 14 = unicastAddrChecker then ⟨false, .compr16, 0, a.bytes.drop 14⟩
    else if a.isLinkLocal then ⟨false, .compr64, 0, a.bytes.drop 8⟩
    else ⟨false, .inline_, 0, a.bytes⟩

/-- The "::" address is compressed as a fake stateful compression. -/
def compressSource (a : Ipv6Address) : Option AddressEncoding :=
  if a = .getAny then some ⟨true, .inline_, 0, []⟩ else compressUnicast t now mac a

def compressMulticast (a : Ipv6Address) : AddressEncoding :=
  match t.findMulticastCompressionContext now a with
  | some (contextId, _) =>
    ⟨true, .inline_, contextId, (a.bytes.drop 1).take 2 ++ a.bytes.drop 12⟩
  | none =>
    if a.bytes.take 15 = [0xff, 0x02, 0, 0, 0, 0, 0, 0, 0, 0, 0, 0, 0, 0, 0] then
      ⟨false, .compr0, 0, a.bytes.drop 15⟩
    else if a.bytes.getD 0 0 = 0xff ∧ (a.bytes.drop 2).take 11 = List.replicate 11 0 then
      ⟨false, .compr16, 0, (a.bytes.drop 1).take 1 ++ a.bytes.drop 13⟩
    else if a.bytes.getD 0 0 = 0xff ∧ (a.bytes.drop 2).take 9 = List.replicate 9 0 then
      ⟨false, .compr64, 0, (a.bytes.drop 1).take 1 ++ a.bytes.drop 11⟩
    else ⟨false, .inline_, 0, a.bytes⟩

def compressDestination (a : Ipv6Address) : Option AddressEncoding :=
  if a.isMulticast then some (compressMulticast t now a) else compressUnicast t now mac a

end

/-- A packet is dropped, or the program stops. -/
inductive Failure
  | dropped
  | aborted
  deriving DecidableEq

section

variable (t : ContextTable) (now : Time) (mac : LinkAddress)

/-- A context that is known and not expired. -/
def getContext (contextId : Nat) : Except Failure ContextEntry :=
  match t.find contextId with
  | none => .error .dropped
  | some context => if context.validLifetime < now then .error .dropped else .ok context

/-- A unicast address, source or destination. -/
def decompressUnicast (e : AddressEncoding) : Except Failure Ipv6Address :=
  if e.stateful then
    (getContext t now e.contextId).map fun context =>
      .deserialize (overridePrefix context.contextPrefix (match e.mode with
        | .compr64 => List.replicate 8 0 ++ e.inlinePart.take 8
        | .compr16 => List.replicate 11 0 ++ [0xff, 0xfe, 0] ++ e.inlinePart.take 2
        | _ => (Ipv6Address.makeAutoconfiguredLinkLocalAddress mac).bytes))
  else .ok <|
    match e.mode with
    | .inline_ => .deserialize (e.inlinePart.take 16)
    | .compr64 => .deserialize ([0xfe, 0x80] ++ List.replicate 6 0 ++ e.inlinePart.take 8)
    | .compr16 => .deserialize (unicastAddrChecker ++ e.inlinePart.take 2)
    | .compr0 => .makeAutoconfiguredLinkLocalAddress mac

def decompressSource (e : AddressEncoding) : Except Failure Ipv6Address :=
  if e.stateful ∧ e.mode = .inline_ then .ok .getAny else decompressUnicast t now mac e

def decompressMulticast (e : AddressEncoding) : Except Failure Ipv6Address :=
  if e.stateful then
    if e.mode = .inline_ then
      (getContext t now e.contextId).map fun context =>
        .deserialize ([0xff] ++ e.inlinePart.take 2 ++
          [.ofNat context.contextPrefix.prefixLength] ++ context.contextPrefix.bytes.take 8 ++
          (e.inlinePart.drop 2).take 4)
    else .error .aborted
  else .ok <|
    match e.mode with
    | .inline_ => .deserialize (e.inlinePart.take 16)
    | .compr64 => .deserialize ([0xff] ++ e.inlinePart.take 1 ++ List.replicate 9 0 ++
        (e.inlinePart.drop 1).take 5)
    | .compr16 => .deserialize ([0xff] ++ e.inlinePart.take 1 ++ List.replicate 11 0 ++
        (e.inlinePart.drop 1).take 3)
    | .compr0 => .deserialize ([0xff, 0x02] ++ List.replicate 13 0 ++ e.inlinePart.take 1)

def decompressDestination (m : Bool) (e : AddressEncoding) : Except Failure Ipv6Address :=
  if m then decompressMulticast t now e
  else if e.stateful ∧ e.mode = .inline_ then .error .aborted
  else decompressUnicast t now mac e

end

/-! ## The header -/

/-- The fields of the traffic class and the flow label. -/
def compressTf (h : Ipv6Header) : TrafficClassFlowLabel :=
  if h.flowLabel = 0 ∧ h.trafficClass = 0 then .elided
  else if h.flowLabel ≠ 0 ∧ h.trafficClass ≠ 0 then .full
  else if h.flowLabel = 0 then .flElided
  else .dscpElided

def decompressTf (encoding : SixLowPanIphc) : UInt8 × Nat :=
  match encoding.tf with
  | .full => (.ofNat (encoding.ecn * 2 ^ 6 + encoding.dscp), encoding.flowLabel % 2 ^ 12)
  | .dscpElided => (.ofNat (encoding.ecn * 2 ^ 2), encoding.flowLabel)
  | .flElided => (.ofNat (encoding.ecn * 2 ^ 6 + encoding.dscp), 0)
  | .elided => (0, 0)

def compressHlim (hopLimit : UInt8) : Hlim :=
  if hopLimit = 1 then .compr1
  else if hopLimit = 0x40 then .compr64
  else if hopLimit = 0xff then .compr255
  else .inline_

def ipv6Udp : UInt8 := 17

def canCompressLowPanNhc (nextHeader : UInt8) : Bool :=
  nextHeader = ipv6Udp || nextHeader = 0 || nextHeader = 43 || nextHeader = 44 || nextHeader = 41

/-- The compressed body and the size of the headers in it, for a body that follows its next
header. -/
def compressBody (omitUdpChecksum : Bool) (nextHeader : UInt8) : Body → Option (List UInt8 × Nat)
  | .udp udpHeader payload =>
    if nextHeader = ipv6Udp then
      some ((compressLowPanUdpNhc omitUdpChecksum udpHeader).serialize ++ payload, 8)
    else none
  | .raw p => if canCompressLowPanNhc nextHeader then none else some (p, 0)

/-- The arrays for the inline parts before they are written. -/
structure Memory where
  src : List UInt8
  dst : List UInt8
  length_src : src.length = 16
  length_dst : dst.length = 16

/-- The header that `CompressLowPanIphc` adds. -/
def encodeHeader (h : Ipv6Header) (source destination : AddressEncoding) (memory : Memory) :
    SixLowPanIphc where
  tf := compressTf h
  nh := canCompressLowPanNhc h.nextHeader
  hlim := compressHlim h.hopLimit
  cid := source.contextId ≠ 0 || destination.contextId ≠ 0
  sac := source.stateful
  sam := source.mode
  m := h.destination.isMulticast
  dac := destination.stateful
  dam := destination.mode
  srcdstContextId := .ofNat (source.contextId * 2 ^ 4 + destination.contextId)
  ecn := h.trafficClass.toNat / 2 ^ 6
  dscp := h.trafficClass.toNat % 2 ^ 6
  flowLabel := h.flowLabel
  nextHeader := h.nextHeader
  hopLimit := h.hopLimit
  srcInlinePart := source.inlinePart ++ memory.src.drop source.inlinePart.length
  dstInlinePart := destination.inlinePart ++ memory.dst.drop destination.inlinePart.length

/-- `CompressLowPanIphc`, with the size of the headers that it returns. -/
def compressLowPanIphc (t : ContextTable) (now : Time) (omitUdpChecksum : Bool) (memory : Memory)
    (src dst : LinkAddress) (p : Ipv6Packet) : Option (List UInt8 × Nat) := do
  let (body, size) ← compressBody omitUdpChecksum p.header.nextHeader p.body
  let source ← compressSource t now src p.header.source
  let destination ← compressDestination t now dst p.header.destination
  let packet ← (encodeHeader p.header source destination memory).addHeader body
  return (packet, 40 + size)

/-- `DecompressLowPanUdpNhc`, or none when another header follows. -/
def decompressBody (checksums : Checksums) (source destination : Ipv6Address) (nh : Bool)
    (nextHeader : UInt8) (packet : List UInt8) : Except Failure (UInt8 × Body) :=
  if nh then
    if 0xf0 ≤ packet.headD 0 ∧ packet.headD 0 ≤ 0xf7 then
      match SixLowPanUdpNhcExtension.deserialize packet with
      | .ok (encoding, payload) => .ok (ipv6Udp, .udp
          (decompressLowPanUdpNhc checksums source destination encoding payload) payload)
      | .error _ => .error .aborted
    else .error .aborted
  else .ok (nextHeader, .raw packet)

def decompressLowPanIphc (t : ContextTable) (now : Time) (checksums : Checksums)
    (src dst : LinkAddress) (packet : List UInt8) : Except Failure Ipv6Packet :=
  match SixLowPanIphc.removeHeader packet with
  | none => .error .aborted
  | some (encoding, packet) => do
    let source ← decompressSource t now src
      ⟨encoding.sac, encoding.sam, encoding.getSrcContextId, encoding.srcInlinePart⟩
    let destination ← decompressDestination t now dst encoding.m
      ⟨encoding.dac, encoding.dam, encoding.getDstContextId, encoding.dstInlinePart⟩
    let (trafficClass, flowLabel) := decompressTf encoding
    let (nextHeader, body) ←
      decompressBody checksums source destination encoding.nh encoding.nextHeader packet
    return ⟨⟨trafficClass, flowLabel, body.getSize % 2 ^ 16, nextHeader, encoding.hopLimit, source,
      destination⟩, body⟩

end Ns3.SixLowPan
