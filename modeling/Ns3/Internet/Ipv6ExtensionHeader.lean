import Mathlib
import Ns3.Library.Segments

/-!
# IPv6 extension headers

The bytes of the headers that stand before a fragment header, and of that
header. `none` is a read beyond the packet, or a routing header of a type
that nothing is registered for.
-/

namespace Ns3.Internet

open List

namespace Ipv6Header

def extHopByHop : UInt8 := 0
def extRouting : UInt8 := 43
def extFragmentation : UInt8 := 44
def extDestination : UInt8 := 60

end Ipv6Header

/-- What follows the first two bytes of a header: options, or the addresses of a loose routing
header, of 16 bytes each. -/
inductive Ipv6ExtensionBody where
  | options (optionData : List UInt8)
  | looseRouting (typeRouting segmentsLeft : UInt8) (routersAddress : List UInt8)
  deriving DecidableEq

structure Ipv6ExtensionHeader where
  nextHeader : UInt8
  length : UInt8
  body : Ipv6ExtensionBody
  deriving DecidableEq

namespace Ipv6ExtensionHeader

/-- `GetLength` -/
def getLength (h : Ipv6ExtensionHeader) : Nat := (h.length.toNat + 1) * 8

/-- `CalculatePad` for options that end at a multiple of 8. -/
def calculatePad (optionData : List UInt8) : Nat :=
  (2 ^ 32 - (optionData.length + 2) % 2 ^ 32) % 8

/-- `Ipv6OptionPad1Header` or `Ipv6OptionPadnHeader` -/
def padding : Nat → List UInt8
  | 0 => []
  | 1 => [0]
  | fill => 1 :: .ofNat (fill - 2) :: List.replicate (fill - 2) 0

def getSerializedSize (h : Ipv6ExtensionHeader) : Nat :=
  match h.body with
  | .options optionData => 2 + (optionData.length + calculatePad optionData)
  | .looseRouting _ _ routersAddress => 8 + routersAddress.length / 16 * 16

def serialize (h : Ipv6ExtensionHeader) : List UInt8 :=
  match h.body with
  | .options optionData =>
    h.nextHeader :: .ofNat (h.getSerializedSize / 8 - 1) ::
      (optionData ++ padding (calculatePad optionData))
  | .looseRouting typeRouting segmentsLeft routersAddress =>
    h.nextHeader :: .ofNat (routersAddress.length / 16 * 2) :: typeRouting :: segmentsLeft ::
      0 :: 0 :: 0 :: 0 :: routersAddress

/-- `Deserialize` of a hop-by-hop or destination header. -/
def deserializeOptions : List UInt8 → Option Ipv6ExtensionHeader
  | nextHeader :: length :: rest =>
    let size := (length.toNat + 1) * 8 - 2
    if size ≤ rest.length then some ⟨nextHeader, length, .options (rest.take size)⟩ else none
  | _ => none

/-- `Deserialize` of the header for a routing type, of which 0 is registered. -/
def deserializeRouting : List UInt8 → Option Ipv6ExtensionHeader
  | nextHeader :: length :: typeRouting :: segmentsLeft :: _ :: _ :: _ :: _ :: rest =>
    let size := length.toNat / 2 * 16
    if typeRouting = 0 ∧ size ≤ rest.length then
      some ⟨nextHeader, length, .looseRouting typeRouting segmentsLeft (rest.take size)⟩
    else none
  | _ => none

/-- The header of a type. -/
def deserialize (type : UInt8) (p : List UInt8) : Option Ipv6ExtensionHeader :=
  if type = Ipv6Header.extRouting then deserializeRouting p else deserializeOptions p

/-- `RemoveHeader` -/
def removeHeader (type : UInt8) (p : List UInt8) :
    Option (Ipv6ExtensionHeader × List UInt8) := do
  let h ← deserialize type p
  if h.getSerializedSize ≤ p.length then some (h, p.drop h.getSerializedSize) else none

/-- A header as it is on the wire: its length is that of its body, and a routing header is a
loose one. -/
def WellFormed (type : UInt8) (h : Ipv6ExtensionHeader) : Prop :=
  match h.body with
  | .options optionData => type ≠ Ipv6Header.extRouting ∧ optionData.length + 2 = h.getLength
  | .looseRouting typeRouting _ routersAddress =>
    type = Ipv6Header.extRouting ∧ typeRouting = 0 ∧ h.length.toNat % 2 = 0 ∧
      routersAddress.length + 8 = h.getLength

variable {type : UInt8} {h : Ipv6ExtensionHeader}

theorem length_serialize (wellFormed : h.WellFormed type) :
    h.serialize.length = h.getLength ∧ h.getSerializedSize = h.getLength := by
  obtain ⟨nextHeader, length, body⟩ := h
  cases body with
  | options optionData =>
    obtain ⟨-, size⟩ := wellFormed
    dsimp only [getLength] at size
    have small : length.toNat < 2 ^ 8 := length.toNat_lt
    have pad : calculatePad optionData = 0 := by
      unfold calculatePad
      omega
    unfold serialize getSerializedSize getLength
    dsimp only
    rw [pad]
    simp only [padding, append_nil, length_cons]
    omega
  | looseRouting typeRouting segmentsLeft routersAddress =>
    obtain ⟨-, -, even, size⟩ := wellFormed
    unfold serialize getSerializedSize getLength at *
    dsimp only at *
    simp only [length_cons]
    omega

theorem deserialize_serialize (wellFormed : h.WellFormed type) (rest : List UInt8) :
    deserialize type (h.serialize ++ rest) = some h := by
  obtain ⟨nextHeader, length, body⟩ := h
  have small : length.toNat < 2 ^ 8 := length.toNat_lt
  cases body with
  | options optionData =>
    obtain ⟨other, size⟩ := wellFormed
    have serialized := (length_serialize (h := ⟨nextHeader, length, .options optionData⟩)
      ⟨other, size⟩).2
    dsimp only [getLength] at size serialized
    have pad : calculatePad optionData = 0 := by
      unfold calculatePad
      omega
    have stored : (length.toNat + 1) * 8 / 8 - 1 = length.toNat := by omega
    unfold deserialize serialize
    dsimp only
    rw [if_neg other, serialized, stored, UInt8.ofNat_toNat, pad, padding, append_nil]
    rw [cons_append, cons_append, deserializeOptions]
    have bytes : (length.toNat + 1) * 8 - 2 = optionData.length := by omega
    rw [bytes, if_pos (by rw [length_append]; omega), take_left]
  | looseRouting typeRouting segmentsLeft routersAddress =>
    obtain ⟨routing, rfl, even, size⟩ := wellFormed
    dsimp only [getLength] at size even
    have stored : routersAddress.length / 16 * 2 = length.toNat := by omega
    have bytes : length.toNat / 2 * 16 = routersAddress.length := by omega
    unfold deserialize serialize
    dsimp only
    rw [if_pos routing, stored, UInt8.ofNat_toNat]
    simp only [cons_append, deserializeRouting]
    rw [bytes, if_pos ⟨trivial, by rw [length_append]; omega⟩, take_left]

theorem removeHeader_serialize (wellFormed : h.WellFormed type) (rest : List UInt8) :
    removeHeader type (h.serialize ++ rest) = some (h, rest) := by
  have sizes := length_serialize wellFormed
  unfold removeHeader
  rw [deserialize_serialize wellFormed]
  dsimp only [Option.bind_eq_bind, Option.bind_some]
  rw [sizes.2, ← sizes.1, if_pos (by rw [length_append]; omega), drop_left]

end Ipv6ExtensionHeader

/-! ## Fragment headers -/

/-- Two bytes, the most significant first. -/
def writeHtonU16 (n : Nat) : List UInt8 := [.ofNat (n / 2 ^ 8), .ofNat n]

def writeHtonU32 (n : Nat) : List UInt8 := writeHtonU16 (n / 2 ^ 16) ++ writeHtonU16 n

def readNtohU16 (a b : UInt8) : Nat := a.toNat * 2 ^ 8 + b.toNat

theorem readNtohU16_writeHtonU16 (n : Nat) :
    readNtohU16 (.ofNat (n / 2 ^ 8)) (.ofNat n) = n % 2 ^ 16 := by
  unfold readNtohU16
  rw [UInt8.toNat_ofNat', UInt8.toNat_ofNat']
  omega

/-- The offset with the flag for more fragments in its lowest bit. -/
structure Ipv6ExtensionFragmentHeader where
  nextHeader : UInt8
  offset : Nat := 0
  identification : UInt32
  deriving DecidableEq

namespace Ipv6ExtensionFragmentHeader

def serializedSize : Nat := 8

def setOffset (h : Ipv6ExtensionFragmentHeader) (offset : Nat) : Ipv6ExtensionFragmentHeader :=
  { h with offset := offset / 8 * 8 + h.offset % 2 }

def getOffset (h : Ipv6ExtensionFragmentHeader) : Nat := h.offset / 2 * 2

def setMoreFragment (h : Ipv6ExtensionFragmentHeader) (moreFragment : Bool) :
    Ipv6ExtensionFragmentHeader :=
  { h with offset := h.offset / 2 * 2 + moreFragment.toNat }

def getMoreFragment (h : Ipv6ExtensionFragmentHeader) : Bool := h.offset % 2 = 1

def serialize (h : Ipv6ExtensionFragmentHeader) : List UInt8 :=
  h.nextHeader :: 0 :: (writeHtonU16 h.offset ++ writeHtonU32 h.identification.toNat)

/-- `RemoveHeader` -/
def removeHeader : List UInt8 → Option (Ipv6ExtensionFragmentHeader × List UInt8)
  | nextHeader :: _ :: a :: b :: c :: d :: e :: f :: rest =>
    some (⟨nextHeader, readNtohU16 a b, .ofNat (readNtohU16 c d * 2 ^ 16 + readNtohU16 e f)⟩, rest)
  | _ => none

theorem removeHeader_serialize {h : Ipv6ExtensionFragmentHeader} (offset : h.offset < 2 ^ 16)
    (rest : List UInt8) :
    removeHeader (h.serialize ++ rest) = some (h, rest) := by
  have identification : h.identification.toNat < 2 ^ 32 := h.identification.toNat_lt
  unfold serialize writeHtonU32 writeHtonU16
  simp only [cons_append, nil_append, removeHeader, readNtohU16_writeHtonU16]
  rw [Nat.mod_eq_of_lt offset, show h.identification.toNat / 2 ^ 16 % 2 ^ 16 * 2 ^ 16 +
    h.identification.toNat % 2 ^ 16 = h.identification.toNat by omega, UInt32.ofNat_toNat]

end Ipv6ExtensionFragmentHeader

end Ns3.Internet

/-!
## `Ipv6ExtensionFragment`

A packet is the bytes behind the IPv6 header, of which the address and the
fields that are set are kept. The identification, a random number, is an
argument. `none` is a read beyond a packet or a loop that does not end.
-/

namespace Ns3.Internet

structure Ipv6Header where
  source : Nat
  nextHeader : UInt8
  payloadLength : Nat
  deriving DecidableEq

def Ipv6Header.serializedSize : Nat := 40

/-- A packet and its header. -/
structure Ipv6PayloadHeaderPair where
  packet : List UInt8
  header : Ipv6Header
  deriving DecidableEq

namespace Ipv6ExtensionFragment

/-! ## Fragmentation -/

/-- Whether the packet begins with a header of the unfragmentable part. -/
def moreHeader (nextHeader : UInt8) (p : List UInt8) : Bool :=
  nextHeader = Ipv6Header.extHopByHop ∨ nextHeader = Ipv6Header.extRouting ∨
    nextHeader = Ipv6Header.extDestination ∧ p.head? = some Ipv6Header.extRouting

/-- The loop that takes the headers off: the headers, the next header and the rest. -/
def unfragmentablePart : (rounds : Nat) → (nextHeader : UInt8) → (p : List UInt8) →
    Option (List Ipv6ExtensionHeader × UInt8 × List UInt8)
  | 0, _, _ => none
  | rounds + 1, nextHeader, p => do
    let (h, p) ← Ipv6ExtensionHeader.removeHeader nextHeader p
    if moreHeader h.nextHeader p then
      let (headers, nextHeader, p) ← unfragmentablePart rounds h.nextHeader p
      return (h :: headers, nextHeader, p)
    else return ([{ h with nextHeader := Ipv6Header.extFragmentation }], h.nextHeader, p)

/-- The headers that every fragment gets, the next header behind them and what is cut. -/
def splitPacket (packet : List UInt8) (nextHeader : UInt8) :
    Option (List Ipv6ExtensionHeader × UInt8 × List UInt8) :=
  if moreHeader nextHeader packet then unfragmentablePart (packet.length + 1) nextHeader packet
  else some ([], nextHeader, packet)

/-- `fragment->AddHeader` of the fragment header and of all the headers. -/
def addHeaders (headers : List Ipv6ExtensionHeader) (fragmentHeader : Ipv6ExtensionFragmentHeader)
    (fragment : List UInt8) : List UInt8 :=
  headers.foldl (fun fragment h => h.serialize ++ fragment) (fragmentHeader.serialize ++ fragment)

/-- The loop that cuts the fragments. -/
def fragmentsFrom (headers : List Ipv6ExtensionHeader) (nextHeader : UInt8)
    (identification : UInt32) (p : List UInt8) (maxFragmentablePartSize : Nat) :
    (rounds : Nat) → (offset : Nat) → Option (List (List UInt8))
  | 0, _ => none
  | rounds + 1, offset => do
    let moreFragment : Bool := (offset + maxFragmentablePartSize) % 2 ^ 32 < p.length
    let size := if moreFragment then maxFragmentablePartSize - maxFragmentablePartSize % 8
      else p.length - offset
    let fragmentHeader : Ipv6ExtensionFragmentHeader := { nextHeader, identification }
    let fragment := addHeaders headers
      ((fragmentHeader.setOffset offset).setMoreFragment moreFragment) ((p.drop offset).take size)
    if moreFragment then
      let listFragments ← fragmentsFrom headers nextHeader identification p
        maxFragmentablePartSize rounds ((offset + size) % 2 ^ 16)
      return fragment :: listFragments
    else return [fragment]

def getFragments (packet : List UInt8) (ipv6Header : Ipv6Header) (maxFragmentSize : Nat)
    (identification : UInt32) : Option (List Ipv6PayloadHeaderPair) := do
  let (headers, nextHeader, p) ← splitPacket packet ipv6Header.nextHeader
  let unfragmentablePartSize := (headers.map Ipv6ExtensionHeader.getLength).sum
  let maxFragmentablePartSize := (maxFragmentSize + 2 ^ 33 - Ipv6Header.serializedSize -
    unfragmentablePartSize - Ipv6ExtensionFragmentHeader.serializedSize) % 2 ^ 32
  let fragments ← fragmentsFrom headers nextHeader identification p maxFragmentablePartSize
    (p.length + 1) 0
  return fragments.map fun fragment => ⟨fragment, { ipv6Header with
    nextHeader := if moreHeader ipv6Header.nextHeader packet then ipv6Header.nextHeader
      else Ipv6Header.extFragmentation
    payloadLength := fragment.length % 2 ^ 16 }⟩

/-! ## Reassembly -/

structure Fragments where
  unfragmentable : Option (List UInt8) := none
  packetFragments : List (Segment UInt8) := []
  moreFragment : Bool := false

namespace Fragments

def addFragment (fs : Fragments) (fragment : Segment UInt8) (moreFragment : Bool) : Fragments :=
  { fs with
    packetFragments := Segment.insert fragment fs.packetFragments
    moreFragment := if fs.packetFragments.all (·.offset ≤ fragment.offset) then moreFragment
      else fs.moreFragment }

def setUnfragmentablePart (fs : Fragments) (unfragmentablePart : List UInt8) : Fragments :=
  { fs with unfragmentable := some unfragmentablePart }

/-- The loop of `IsEntire`. -/
def checkOffsets : (lastEndOffset : Nat) → List (Segment UInt8) → Bool
  | _, [] => true
  | lastEndOffset, f :: rest =>
    if lastEndOffset ≠ f.offset then false
    else checkOffsets ((lastEndOffset + f.data.length) % 2 ^ 16) rest

def isEntire (fs : Fragments) : Bool :=
  !fs.moreFragment && !fs.packetFragments.isEmpty && checkOffsets 0 fs.packetFragments

def getPacket (fs : Fragments) : Option (List UInt8) := do
  let p ← fs.unfragmentable
  return fs.packetFragments.foldl (fun p f => p ++ f.data) p

end Fragments

structure FragmentKey where
  source : Nat
  identification : UInt32
  deriving DecidableEq

abbrev FragmentMap := FragmentKey → Option Fragments

/-- What `Process` leaves to its caller: no packet when it stops the processing. -/
structure Outcome where
  packet : Option (List UInt8)
  nextHeader : UInt8
  deriving DecidableEq

def process (m : FragmentMap) (packet : List UInt8) (offset : Nat) (ipv6Header : Ipv6Header) :
    Option (Outcome × FragmentMap) := do
  let (fragmentHeader, p) ← Ipv6ExtensionFragmentHeader.removeHeader (packet.drop offset)
  let fragmentKey : FragmentKey := ⟨ipv6Header.source, fragmentHeader.identification⟩
  let fragments := (m fragmentKey).getD {}
  let fragments := if fragmentHeader.getOffset = 0 then
    fragments.setUnfragmentablePart (packet.take offset) else fragments
  let fragments := fragments.addFragment ⟨fragmentHeader.getOffset, p⟩
    fragmentHeader.getMoreFragment
  if fragments.isEntire then
    let packet ← fragments.getPacket
    return (⟨some packet, fragmentHeader.nextHeader⟩, Function.update m fragmentKey none)
  else
    return (⟨none, fragmentHeader.nextHeader⟩, Function.update m fragmentKey (some fragments))

/-- `HandleFragmentsTimeout` -/
def handleFragmentsTimeout (m : FragmentMap) (fragmentKey : FragmentKey) : FragmentMap :=
  Function.update m fragmentKey none

end Ipv6ExtensionFragment

end Ns3.Internet
