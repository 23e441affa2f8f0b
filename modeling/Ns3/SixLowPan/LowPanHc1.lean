import Ns3.Library.LittleEndian
import Ns3.SixLowPan.LowPanIphc

/-!
# HC1 compression of `SixLowPanNetDevice`

`none` is a failed `NS_ASSERT` or `NS_ABORT_MSG`. What a header leaves as it was in memory is
empty or zero here, and not used.
-/

namespace Ns3.SixLowPan

open ByteReader (Reader Reads)

open Ipv6Address ByteReader

/-! ## The header `SixLowPanHc1` -/

inductive LowPanHc1Addr where
  | piii
  | piic
  | pcii
  | pcic
  deriving DecidableEq

inductive LowPanHc1NextHeader where
  | nc
  | udp
  | icmp
  | tcp
  deriving DecidableEq

def LowPanHc1Addr.value : LowPanHc1Addr → Nat
  | .piii => 0
  | .piic => 1
  | .pcii => 2
  | .pcic => 3

def LowPanHc1Addr.ofValue : Nat → LowPanHc1Addr
  | 0 => .piii
  | 1 => .piic
  | 2 => .pcii
  | _ => .pcic

def LowPanHc1NextHeader.value : LowPanHc1NextHeader → Nat
  | .nc => 0
  | .udp => 1
  | .icmp => 2
  | .tcp => 3

def LowPanHc1NextHeader.ofValue : Nat → LowPanHc1NextHeader
  | 0 => .nc
  | 1 => .udp
  | 2 => .icmp
  | _ => .tcp

/-- The fields of the source, or those of the destination. -/
structure Hc1Address where
  compression : LowPanHc1Addr
  addressPrefix : List UInt8
  interface : List UInt8
  deriving DecidableEq

namespace Hc1Address

def serializedSize : LowPanHc1Addr → Nat
  | .piii => 16
  | .piic | .pcii => 8
  | .pcic => 0

def serialize (address : Hc1Address) : List UInt8 :=
  match address.compression with
  | .piii => address.addressPrefix ++ address.interface
  | .piic => address.addressPrefix
  | .pcii => address.interface
  | .pcic => []

def deserialize (compression : LowPanHc1Addr) : Reader Unit Hc1Address :=
  match compression with
  | .piii => do
    let addressPrefix ← readBytes () 8
    let interface ← readBytes () 8
    return ⟨compression, addressPrefix, interface⟩
  | .piic => do
    let addressPrefix ← readBytes () 8
    return ⟨compression, addressPrefix, []⟩
  | .pcii => do
    let interface ← readBytes () 8
    return ⟨compression, [], interface⟩
  | .pcic => return ⟨compression, [], []⟩

end Hc1Address

structure SixLowPanHc1 where
  hopLimit : UInt8
  src : Hc1Address
  dst : Hc1Address
  tcflCompression : Bool
  trafficClass : UInt8
  flowLabel : Nat
  nextHeaderCompression : LowPanHc1NextHeader
  nextHeader : UInt8
  hc2HeaderPresent : Bool
  deriving DecidableEq

namespace SixLowPanHc1

variable (h : SixLowPanHc1)

def getSerializedSize : Nat :=
  3 + Hc1Address.serializedSize h.src.compression + Hc1Address.serializedSize h.dst.compression +
    (if h.tcflCompression then 0 else 4) + if h.nextHeaderCompression = .nc then 1 else 0

/-- `LOWPAN_HC1` -/
def dispatch : UInt8 := 0x42

def encoding : Nat :=
  (((h.src.compression.value <<< 2 ||| h.dst.compression.value) <<< 1 |||
    h.tcflCompression.toNat) <<< 2 ||| h.nextHeaderCompression.value) <<< 1 |||
      h.hc2HeaderPresent.toNat

def serializeTcfl : List UInt8 :=
  if h.tcflCompression then []
  else [h.trafficClass, .ofNat (h.flowLabel &&& 0xff), .ofNat ((h.flowLabel >>> 8) &&& 0xff),
    .ofNat ((h.flowLabel >>> 16) &&& 0xff)]

def serialize : Option (List UInt8) :=
  if h.hc2HeaderPresent then none
  else some ([dispatch] ++ ([.ofNat h.encoding] ++ ([h.hopLimit] ++ (h.src.serialize ++
    (h.dst.serialize ++ (h.serializeTcfl ++
      if h.nextHeaderCompression = .nc then [h.nextHeader] else []))))))

def readTcfl (tcflCompression : Bool) : Reader Unit (UInt8 × Nat) :=
  if tcflCompression then return (0, 0)
  else do
    let trafficClass ← readU8 ()
    let low ← readU8 ()
    let middle ← readU8 ()
    let high ← readU8 ()
    return (trafficClass, (high.toNat <<< 8 ||| middle.toNat) <<< 8 ||| low.toNat)

def ipv6Tcp : UInt8 := 6

def ipv6Icmpv6 : UInt8 := 58

def readNextHeader : LowPanHc1NextHeader → Reader Unit UInt8
  | .nc => readU8 ()
  | .tcp => return ipv6Tcp
  | .udp => return ipv6Udp
  | .icmp => return ipv6Icmpv6

/-- With another dispatch nothing is read. -/
def deserialize : Reader Unit SixLowPanHc1 := do
  let first ← readU8 ()
  if first ≠ dispatch then throw ()
  let encoding ← readU8 ()
  let encoding := encoding.toNat
  let hopLimit ← readU8 ()
  let tcflCompression : Bool := (encoding >>> 3) &&& 0x1 = 1
  let nextHeaderCompression := LowPanHc1NextHeader.ofValue ((encoding >>> 1) &&& 0x3)
  let hc2HeaderPresent : Bool := encoding &&& 0x1 = 1
  let src ← Hc1Address.deserialize (.ofValue (encoding >>> 6))
  let dst ← Hc1Address.deserialize (.ofValue ((encoding >>> 4) &&& 0x3))
  let (trafficClass, flowLabel) ← readTcfl tcflCompression
  let nextHeader ← readNextHeader nextHeaderCompression
  if hc2HeaderPresent then throw ()
  return ⟨hopLimit, src, dst, tcflCompression, trafficClass, flowLabel, nextHeaderCompression,
    nextHeader, hc2HeaderPresent⟩

/-- `SetNextHeader` -/
def setNextHeader (nextHeader : UInt8) : SixLowPanHc1 :=
  { h with
    nextHeader
    nextHeaderCompression :=
      if nextHeader = ipv6Udp then .udp
      else if nextHeader = ipv6Tcp then .tcp
      else if nextHeader = ipv6Icmpv6 then .icmp
      else .nc }

end SixLowPanHc1

/-! ## The device -/

/-- `MakeAutoconfiguredAddress` for a prefix that is an address. -/
def Ipv6Address.makeAutoconfiguredAddressOf (addr : LinkAddress) (ipv6PrefixAddr : Ipv6Address) :
    Option Ipv6Address :=
  let ipv6Addr := deserialize (ipv6PrefixAddr.bytes.take 8 ++ addr.interfaceId)
  if ipv6Addr = getAny then none else some ipv6Addr

/-- The compression of the source, or of the destination. -/
def compressHc1Address (mac : LinkAddress) (a : Ipv6Address) : Hc1Address :=
  let isSame := a.bytes.drop 8 = (makeAutoconfiguredLinkLocalAddress mac).bytes.drop 8
  if a.isLinkLocal ∧ isSame then ⟨.pcic, [], []⟩
  else if a.isLinkLocal then ⟨.pcii, [], a.bytes.drop 8⟩
  else if isSame then ⟨.piic, a.bytes.take 8, []⟩
  else ⟨.piii, a.bytes.take 8, a.bytes.drop 8⟩

/-- The header that `CompressLowPanHc1` builds. -/
def encodeHc1 (src dst : LinkAddress) (ipHeader : Ipv6Header) : SixLowPanHc1 :=
  let tcfl := ipHeader.flowLabel = 0 ∧ ipHeader.trafficClass = 0
  let hc1Header : SixLowPanHc1 := {
    hopLimit := ipHeader.hopLimit
    src := compressHc1Address src ipHeader.source
    dst := compressHc1Address dst ipHeader.destination
    tcflCompression := tcfl
    trafficClass := if tcfl then 0 else ipHeader.trafficClass
    flowLabel := if tcfl then 0 else ipHeader.flowLabel
    nextHeaderCompression := .nc
    nextHeader := 0
    hc2HeaderPresent := false }
  hc1Header.setNextHeader ipHeader.nextHeader

/-- `CompressLowPanHc1` of an IPv6 header and what follows it. -/
def compressLowPanHc1 (src dst : LinkAddress) (ipHeader : Ipv6Header) (packet : List UInt8) :
    Option (List UInt8) :=
  (encodeHc1 src dst ipHeader).serialize.map (· ++ packet)

/-- `address` is the local array, with what was in it before. -/
def decompressHc1Address (address : Ipv6Address) (mac : LinkAddress) (encoding : Hc1Address) :
    Option Ipv6Address :=
  match encoding.compression with
  | .piii => some (.deserialize (encoding.addressPrefix ++ encoding.interface))
  | .piic => makeAutoconfiguredAddressOf mac
      (.deserialize (encoding.addressPrefix ++ List.replicate 8 0))
  | .pcii => some
      (.deserialize ([0xfe, 0x80] ++ ((address.bytes.drop 2).take 6 ++ encoding.interface)))
  | .pcic => some (.makeAutoconfiguredLinkLocalAddress mac)

/-- `DecompressLowPanHc1`, with the two local arrays. -/
def decompressLowPanHc1 (srcAddress dstAddress : Ipv6Address) (src dst : LinkAddress)
    (packet : List UInt8) : Option (Ipv6Header × List UInt8) :=
  match SixLowPanHc1.deserialize packet with
  | .error _ => none
  | .ok (encoding, _) => do
    let packet := packet.drop encoding.getSerializedSize
    let source ← decompressHc1Address srcAddress src encoding.src
    let destination ← decompressHc1Address dstAddress dst encoding.dst
    return ({
      trafficClass := if encoding.tcflCompression then 0 else encoding.trafficClass
      flowLabel := if encoding.tcflCompression then 0 else encoding.flowLabel
      payloadLength := packet.length % 2 ^ 16
      nextHeader := encoding.nextHeader
      hopLimit := encoding.hopLimit
      source
      destination }, packet)

/-! ## What comes back -/

/-- An address that the compressor makes. -/
structure Hc1Address.WellFormed (address : Hc1Address) : Prop where
  addressPrefix : address.addressPrefix.length =
    if address.compression = .piii ∨ address.compression = .piic then 8 else 0
  interface : address.interface.length =
    if address.compression = .piii ∨ address.compression = .pcii then 8 else 0

theorem Hc1Address.WellFormed.reads {address : Hc1Address} (wellFormed : address.WellFormed) :
    address.serialize.length = serializedSize address.compression ∧
      Reads (deserialize address.compression) address.serialize address := by
  obtain ⟨compression, addressPrefix, interface⟩ := address
  obtain ⟨front, back⟩ := wellFormed
  have readsPrefix := readBytes_reads () addressPrefix
  have readsInterface := readBytes_reads () interface
  unfold deserialize serialize
  cases compression with
  | piii =>
    have front : addressPrefix.length = 8 := front
    have back : interface.length = 8 := back
    rw [front] at readsPrefix
    rw [back] at readsInterface
    exact ⟨by simp [front, back, serializedSize], readsPrefix.bind (readsInterface.map _)⟩
  | piic =>
    have front : addressPrefix.length = 8 := front
    obtain rfl := List.eq_nil_of_length_eq_zero back
    rw [front] at readsPrefix
    exact ⟨front, readsPrefix.map _⟩
  | pcii =>
    have back : interface.length = 8 := back
    obtain rfl := List.eq_nil_of_length_eq_zero front
    rw [back] at readsInterface
    exact ⟨back, readsInterface.map _⟩
  | pcic =>
    obtain rfl := List.eq_nil_of_length_eq_zero front
    obtain rfl := List.eq_nil_of_length_eq_zero back
    exact ⟨rfl, .pure _⟩

theorem wellFormed_compressHc1Address (mac : LinkAddress) (a : Ipv6Address) :
    (compressHc1Address mac a).WellFormed := by
  have front : (a.bytes.take 8).length = 8 := by simp [a.length_eq]
  have back : (a.bytes.drop 8).length = 8 := by simp [a.length_eq]
  unfold compressHc1Address
  dsimp only
  split_ifs
  · exact ⟨rfl, rfl⟩
  · exact ⟨rfl, back⟩
  · exact ⟨front, rfl⟩
  · exact ⟨front, back⟩

/-- The address comes back: the prefix of a link-local one that the link-layer address does not
give must be in the local array, and there must be something of the address. -/
def Hc1Restored (address : Ipv6Address) (mac : LinkAddress) (a : Ipv6Address) : Prop :=
  (a.isLinkLocal = true → a.bytes.drop 8 ≠ mac.interfaceId →
    (address.bytes.drop 2).take 6 = List.replicate 6 0) ∧
  ¬ (a = getAny ∧ mac.interfaceId = List.replicate 8 0)

/-- **An address on its own.** -/
theorem decompressHc1Address_iff (address : Ipv6Address) (mac : LinkAddress) (a : Ipv6Address) :
    decompressHc1Address address mac (compressHc1Address mac a) = some a ↔
      Hc1Restored address mac a := by
  have own : (makeAutoconfiguredLinkLocalAddress mac).bytes =
      linkLocal.bytes.take 8 ++ mac.interfaceId :=
    bytes_deserialize (by
      rw [List.length_append, mac.length_interfaceId]
      rfl)
  have own_interface : (makeAutoconfiguredLinkLocalAddress mac).bytes.drop 8 = mac.interfaceId := by
    rw [own]
    rfl
  have front : (a.bytes.take 8).length = 8 := by simp [a.length_eq]
  have back : (a.bytes.drop 8).length = 8 := by simp [a.length_eq]
  have parts := List.take_append_drop 8 a.bytes
  have whole : deserialize (a.bytes.take 8 ++ a.bytes.drop 8) = a := by simp [deserialize_bytes]
  unfold compressHc1Address Hc1Restored
  dsimp only
  rw [own_interface]
  by_cases local_ : a.isLinkLocal = true
  · have start := take_of_isLinkLocal local_
    have not_any : a ≠ getAny := by
      rintro rfl
      exact absurd local_ (by decide)
    by_cases same : a.bytes.drop 8 = mac.interfaceId
    · rw [if_pos ⟨local_, same⟩]
      refine iff_of_true (congrArg some (ext_bytes ?_))
        ⟨fun _ differs => absurd same differs, fun any => not_any any.1⟩
      simp [own, ← same, ← start]
    · rw [if_neg fun both => same both.2, if_pos local_]
      have array :
          ([0xfe, 0x80] ++ ((address.bytes.drop 2).take 6 ++ a.bytes.drop 8)).length = 16 := by
        simp [address.length_eq, back]
      have local_bytes : [0xfe, 0x80] ++ (List.replicate 6 0 ++ a.bytes.drop 8) = a.bytes :=
        (congrArg (· ++ a.bytes.drop 8) start.symm).trans parts
      have filled : decompressHc1Address address mac ⟨.pcii, [], a.bytes.drop 8⟩ = some a ↔
          [0xfe, 0x80] ++ ((address.bytes.drop 2).take 6 ++ a.bytes.drop 8) =
            [0xfe, 0x80] ++ (List.replicate 6 0 ++ a.bytes.drop 8) := by
        rw [local_bytes, ← bytes_deserialize array]
        constructor
        · intro done
          exact congrArg bytes (Option.some.inj done)
        · intro done
          exact congrArg some (ext_bytes done)
      rw [filled, List.append_cancel_left_eq, List.append_cancel_right_eq]
      exact ⟨fun zero => ⟨fun _ _ => zero, fun any => not_any any.1⟩,
        fun restored => restored.1 local_ same⟩
  · rw [if_neg fun both => local_ both.1, if_neg local_]
    by_cases same : a.bytes.drop 8 = mac.interfaceId
    · have first : (deserialize (a.bytes.take 8 ++ List.replicate 8 0)).bytes.take 8 =
          a.bytes.take 8 := by rw [bytes_deserialize (by simp [front]), List.take_left' front]
      have made : makeAutoconfiguredAddressOf mac
          (.deserialize (a.bytes.take 8 ++ List.replicate 8 0)) =
            if a = getAny then none else some a := by
        rw [makeAutoconfiguredAddressOf, first, ← same, whole]
      rw [if_pos same]
      change makeAutoconfiguredAddressOf mac _ = some a ↔ _
      rw [made]
      by_cases any : a = getAny
      · rw [if_pos any]
        refine iff_of_false nofun fun restored => restored.2 ⟨any, ?_⟩
        rw [← same, any]
        rfl
      · rw [if_neg any]
        exact iff_of_true rfl ⟨fun is => absurd is local_, fun both => any both.1⟩
    · rw [if_neg same]
      refine iff_of_true (congrArg some whole) ⟨fun is => absurd is local_, ?_⟩
      rintro ⟨rfl, zero⟩
      exact same zero.symm

/-! ## The round trip -/

namespace SixLowPanHc1

/-- A header that the compressor makes. -/
structure WellFormed (h : SixLowPanHc1) : Prop where
  src : h.src.WellFormed
  dst : h.dst.WellFormed
  tcfl : if h.tcflCompression then h.trafficClass = 0 ∧ h.flowLabel = 0 else h.flowLabel < 2 ^ 20
  nextHeader : h.nextHeader = match h.nextHeaderCompression with
    | .nc => h.nextHeader
    | .udp => ipv6Udp
    | .icmp => ipv6Icmpv6
    | .tcp => ipv6Tcp
  hc2HeaderPresent : h.hc2HeaderPresent = false

variable {h : SixLowPanHc1}

theorem encoding_fields (h : SixLowPanHc1) : h.encoding < 256 ∧
    LowPanHc1Addr.ofValue (h.encoding >>> 6) = h.src.compression ∧
    LowPanHc1Addr.ofValue ((h.encoding >>> 4) &&& 0x3) = h.dst.compression ∧
    decide ((h.encoding >>> 3) &&& 0x1 = 1) = h.tcflCompression ∧
    LowPanHc1NextHeader.ofValue ((h.encoding >>> 1) &&& 0x3) = h.nextHeaderCompression ∧
    decide (h.encoding &&& 0x1 = 1) = h.hc2HeaderPresent := by
  unfold encoding
  cases h.src.compression <;> cases h.dst.compression <;> cases h.tcflCompression <;>
    cases h.nextHeaderCompression <;> cases h.hc2HeaderPresent <;> decide

theorem WellFormed.readTcfl_reads (wellFormed : h.WellFormed) :
    Reads (readTcfl h.tcflCompression) h.serializeTcfl (h.trafficClass, h.flowLabel) := by
  have tcfl := wellFormed.tcfl
  intro rest
  unfold serializeTcfl
  cases elided : h.tcflCompression with
  | true =>
    rw [elided, if_pos rfl] at tcfl
    rw [tcfl.1, tcfl.2]
    rfl
  | false =>
    rw [elided, if_neg Bool.false_ne_true] at tcfl
    have low : h.flowLabel &&& 0xff = h.flowLabel % 256 ∧
        (h.flowLabel >>> 8) &&& 0xff = h.flowLabel / 256 % 256 ∧
        (h.flowLabel >>> 16) &&& 0xff = h.flowLabel / 65536 := by
      simp only [LittleEndian.and_mask, true_and]
      omega
    have back : ((h.flowLabel / 65536) <<< 8 ||| h.flowLabel / 256 % 256) <<< 8 |||
        h.flowLabel % 256 = h.flowLabel := by
      rw [← Nat.shiftLeft_add_eq_or_of_lt (by omega), ← Nat.shiftLeft_add_eq_or_of_lt (by omega)]
      omega
    have byte : h.flowLabel / 65536 % 256 = h.flowLabel / 65536 := Nat.mod_eq_of_lt (by omega)
    simp [readTcfl, readU8, low, byte, back, bind, StateT.bind, Except.bind, pure,
      StateT.pure, Except.pure]

theorem WellFormed.readNextHeader_reads (wellFormed : h.WellFormed) :
    Reads (readNextHeader h.nextHeaderCompression)
      (if h.nextHeaderCompression = .nc then [h.nextHeader] else []) h.nextHeader := by
  have is := wellFormed.nextHeader
  intro rest
  cases compression : h.nextHeaderCompression with
  | nc => rfl
  | udp | icmp | tcp =>
    rw [compression] at is
    rw [is]
    rfl

/-- The header is read back. -/
theorem WellFormed.reads (wellFormed : h.WellFormed) : ∃ bytes, h.serialize = some bytes ∧
    bytes.length = h.getSerializedSize ∧ Reads deserialize bytes h := by
  obtain ⟨small, src, dst, tcfl, nextHeader, hc2⟩ := encoding_fields h
  have byte : (UInt8.ofNat h.encoding).toNat = h.encoding := UInt8.toNat_ofNat_of_lt' small
  obtain ⟨src_length, src_reads⟩ := wellFormed.src.reads
  obtain ⟨dst_length, dst_reads⟩ := wellFormed.dst.reads
  have present := wellFormed.hc2HeaderPresent
  refine ⟨_, by rw [serialize, present, if_neg Bool.false_ne_true], ?_, ?_⟩
  · have tcfl_length : h.serializeTcfl.length = if h.tcflCompression then 0 else 4 := by
      unfold serializeTcfl
      split <;> rfl
    have next_length : (if h.nextHeaderCompression = .nc then [h.nextHeader] else []).length =
        if h.nextHeaderCompression = .nc then 1 else 0 := by split <;> rfl
    unfold getSerializedSize
    simp only [List.length_append, src_length, dst_length, tcfl_length, next_length,
      List.length_singleton]
    omega
  · refine (readU8_reads () dispatch).bind ((readU8_reads () _).bind ((readU8_reads () _).bind ?_))
    dsimp only
    rw [byte, src, dst, tcfl, nextHeader, hc2, present]
    refine src_reads.bind (dst_reads.bind (wellFormed.readTcfl_reads.bind
      (wellFormed.readNextHeader_reads.bind_nil ?_)))
    rw [if_neg Bool.false_ne_true, ← present]
    exact .pure h

end SixLowPanHc1

theorem wellFormed_encodeHc1 (src dst : LinkAddress) {ipHeader : Ipv6Header}
    (flowLabel : ipHeader.flowLabel < 2 ^ 20) : (encodeHc1 src dst ipHeader).WellFormed where
  src := wellFormed_compressHc1Address src ipHeader.source
  dst := wellFormed_compressHc1Address dst ipHeader.destination
  tcfl := by
    by_cases elided : ipHeader.flowLabel = 0 ∧ ipHeader.trafficClass = 0
    · simp [encodeHc1, SixLowPanHc1.setNextHeader, elided]
    · simpa [encodeHc1, SixLowPanHc1.setNextHeader, elided] using flowLabel
  nextHeader := by
    dsimp only [encodeHc1, SixLowPanHc1.setNextHeader]
    split_ifs <;> first | assumption | rfl
  hc2HeaderPresent := rfl

/-- The fields of the IPv6 header come back. -/
def Hc1Lossless (srcAddress dstAddress : Ipv6Address) (src dst : LinkAddress)
    (ipHeader : Ipv6Header) (packet : List UInt8) : Prop :=
  ∃ compressed payloadLength, compressLowPanHc1 src dst ipHeader packet = some compressed ∧
    decompressLowPanHc1 srcAddress dstAddress src dst compressed =
      some ({ ipHeader with payloadLength }, packet)

/-- **Compression is lossless when the local arrays hold the rest of the prefixes.** -/
theorem hc1Lossless_iff (srcAddress dstAddress : Ipv6Address) (src dst : LinkAddress)
    {ipHeader : Ipv6Header} (flowLabel : ipHeader.flowLabel < 2 ^ 20) (packet : List UInt8) :
    Hc1Lossless srcAddress dstAddress src dst ipHeader packet ↔
      Hc1Restored srcAddress src ipHeader.source ∧
        Hc1Restored dstAddress dst ipHeader.destination := by
  obtain ⟨bytes, written, size, reads⟩ := (wellFormed_encodeHc1 src dst flowLabel).reads
  have compressed : compressLowPanHc1 src dst ipHeader packet = some (bytes ++ packet) := by
    rw [compressLowPanHc1, written]
    rfl
  have tcfl : (if (encodeHc1 src dst ipHeader).tcflCompression then 0
        else (encodeHc1 src dst ipHeader).trafficClass) = ipHeader.trafficClass ∧
      (if (encodeHc1 src dst ipHeader).tcflCompression then 0
        else (encodeHc1 src dst ipHeader).flowLabel) = ipHeader.flowLabel := by
    by_cases elided : ipHeader.flowLabel = 0 ∧ ipHeader.trafficClass = 0 <;>
      simp [encodeHc1, SixLowPanHc1.setNextHeader, elided]
  have back : decompressLowPanHc1 srcAddress dstAddress src dst (bytes ++ packet) = do
      let source ← decompressHc1Address srcAddress src (compressHc1Address src ipHeader.source)
      let destination ←
        decompressHc1Address dstAddress dst (compressHc1Address dst ipHeader.destination)
      return ({ ipHeader with payloadLength := packet.length % 2 ^ 16, source, destination },
        packet) := by
    unfold decompressLowPanHc1
    rw [reads packet]
    dsimp only
    rw [← size, List.drop_left, tcfl.1, tcfl.2]
    rfl
  rw [← decompressHc1Address_iff, ← decompressHc1Address_iff]
  constructor
  · rintro ⟨_, payloadLength, is, done⟩
    obtain rfl := Option.some.inj (compressed.symm.trans is)
    rw [back, Option.bind_eq_bind, Option.bind_eq_some_iff] at done
    obtain ⟨source, first, done⟩ := done
    obtain ⟨destination, second, done⟩ := Option.bind_eq_some_iff.mp done
    have same := congrArg Prod.fst (Option.some.inj done)
    rw [first, second]
    exact ⟨congrArg (some ∘ Ipv6Header.source) same, congrArg (some ∘ Ipv6Header.destination) same⟩
  · rintro ⟨source, destination⟩
    refine ⟨_, packet.length % 2 ^ 16, compressed, ?_⟩
    rw [back, source, destination]
    rfl

/-- A header from `fe80::1` to `ff02::1`. -/
def fromLinkLocal : Ipv6Header where
  trafficClass := 0
  flowLabel := 0
  payloadLength := 0
  nextHeader := 58
  hopLimit := 255
  source := .deserialize [0xfe, 0x80, 0, 0, 0, 0, 0, 0, 0, 0, 0, 0, 0, 0, 0, 1]
  destination := .deserialize [0xff, 0x02, 0, 0, 0, 0, 0, 0, 0, 0, 0, 0, 0, 0, 0, 1]

theorem fromLinkLocal_lossless :
    Hc1Lossless .getAny .getAny (.mac16 0 1) (.mac16 0xff 0xff) fromLinkLocal [] ↔
      Hc1Restored .getAny (.mac16 0 1) fromLinkLocal.source ∧
        Hc1Restored .getAny (.mac16 0xff 0xff) fromLinkLocal.destination :=
  hc1Lossless_iff .getAny .getAny (.mac16 0 1) (.mac16 0xff 0xff) (by decide) []

/-- The local array held ones, and `fe80::1` becomes `fe80:ffff:ffff:ffff::1`. -/
theorem fromLinkLocal_garbled : ¬ ∀ (srcAddress dstAddress : Ipv6Address) (src dst : LinkAddress)
    (ipHeader : Ipv6Header) (packet : List UInt8), ipHeader.flowLabel < 2 ^ 20 →
    Hc1Lossless srcAddress dstAddress src dst ipHeader packet := by
  intro all
  obtain ⟨_, _, is, done⟩ :=
    all .getOnes .getAny (.mac16 0 1) (.mac16 0xff 0xff) fromLinkLocal [] (by decide)
  cases is
  have source := congrArg (Option.map (·.1.source)) done
  exact absurd source (show (_ : Option Ipv6Address) ≠ some fromLinkLocal.source by decide)

end Ns3.SixLowPan
