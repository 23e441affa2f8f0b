import Mathlib
import Ns3.Library.Segments

/-!
# IPv4 fragments

Fragmentation and reassembly of `Ipv4L3Protocol`. The header is without options
and without the fields that neither of the two reads; `none` is an abort or a
loop that does not end.
-/

namespace Ns3.Internet

structure Ipv4Header where
  source : Nat
  destination : Nat
  protocol : Nat
  identification : Nat
  payloadSize : Nat
  fragmentOffset : Nat
  moreFragments : Bool
  deriving DecidableEq

namespace Ipv4Header

/-- `GetSerializedSize` -/
def serializedSize : Nat := 5 * 4

def isLastFragment (h : Ipv4Header) : Bool := !h.moreFragments

/-- `SetFragmentOffset` -/
def setFragmentOffset (h : Ipv4Header) (offsetBytes : Nat) : Option Ipv4Header :=
  if offsetBytes % 8 = 0 then some { h with fragmentOffset := offsetBytes } else none

end Ipv4Header

/-- A packet and its header. -/
structure Ipv4PayloadHeaderPair where
  packet : List UInt8
  header : Ipv4Header
  deriving DecidableEq

namespace Ipv4L3Protocol

/-! ## Fragmentation -/

/-- The size of the fragments but the last. -/
def fragmentSize (outIfaceMtu : Nat) : Nat :=
  (outIfaceMtu + 2 ^ 32 - Ipv4Header.serializedSize) % 2 ^ 32 / 8 * 8

/-- One fragment, from `offset` on. -/
def createFragment (p : Ipv4PayloadHeaderPair) (offset size : Nat) (moreFragments : Bool) :
    Option Ipv4PayloadHeaderPair := do
  let h ← p.header.setFragmentOffset ((offset + p.header.fragmentOffset) % 2 ^ 16)
  return ⟨(p.packet.drop offset).take size, { h with payloadSize := size % 2 ^ 16, moreFragments }⟩

/-- The loop of `DoFragmentation`. -/
def fragmentsFrom (p : Ipv4PayloadHeaderPair) (size : Nat) :
    (rounds : Nat) → (offset : Nat) → Option (List Ipv4PayloadHeaderPair)
  | 0, _ => none
  | rounds + 1, offset => do
    if (offset + size) % 2 ^ 32 < p.packet.length then
      let fragment ← createFragment p offset size true
      let listFragments ← fragmentsFrom p size rounds ((offset + size) % 2 ^ 16)
      return fragment :: listFragments
    else
      let fragment ← createFragment p offset (p.packet.length - offset) p.header.moreFragments
      return [fragment]

def doFragmentation (p : Ipv4PayloadHeaderPair) (outIfaceMtu : Nat) :
    Option (List Ipv4PayloadHeaderPair) :=
  fragmentsFrom p (fragmentSize outIfaceMtu) (p.packet.length + 1) 0

/-! ## Reassembly -/

structure Fragments where
  fragments : List (Segment UInt8) := []
  moreFragment : Bool := false

namespace Fragments

def addFragment (fs : Fragments) (fragment : Segment UInt8) (moreFragment : Bool) : Fragments where
  fragments := Segment.insert fragment fs.fragments
  moreFragment :=
    if fs.fragments.all (·.offset ≤ fragment.offset) then moreFragment else fs.moreFragment

/-- The loop of `IsEntire`. -/
def checkOverlaps : (lastEndOffset : Nat) → List (Segment UInt8) → Bool
  | _, [] => true
  | lastEndOffset, f :: rest =>
    if lastEndOffset < f.offset then false
    else checkOverlaps (max lastEndOffset ((f.data.length + f.offset) % 2 ^ 16)) rest

def isEntire (fs : Fragments) : Bool :=
  !fs.moreFragment && !fs.fragments.isEmpty && checkOverlaps 0 fs.fragments

/-- One round of `GetPacket`. -/
def appendFragment (p : List UInt8) (f : Segment UInt8) : List UInt8 :=
  let lastEndOffset := p.length % 2 ^ 16
  if f.offset < lastEndOffset then
    let newStart := lastEndOffset - f.offset
    if newStart < f.data.length then
      p ++ (f.data.drop newStart).take (f.data.length - newStart)
    else p
  else p ++ f.data

def getPacket (fs : Fragments) : Option (List UInt8) :=
  match fs.fragments with
  | [] => none
  | f :: rest => some (rest.foldl appendFragment f.data)

end Fragments

structure FragmentKey where
  source : Nat
  destination : Nat
  identification : Nat
  protocol : Nat
  deriving DecidableEq

def fragmentKey (h : Ipv4Header) : FragmentKey :=
  ⟨h.source, h.destination, h.identification, h.protocol⟩

/-- The fragments of each datagram. -/
abbrev FragmentMap := FragmentKey → Option Fragments

/-- `ProcessFragment`: the packet when it is complete. -/
def processFragment (m : FragmentMap) (p : Ipv4PayloadHeaderPair) :
    Option (List UInt8) × FragmentMap :=
  let key := fragmentKey p.header
  let fragments := ((m key).getD {}).addFragment ⟨p.header.fragmentOffset, p.packet⟩
    (!p.header.isLastFragment)
  if fragments.isEntire then (fragments.getPacket, Function.update m key none)
  else (none, Function.update m key (some fragments))

/-- `HandleFragmentsTimeout` -/
def handleFragmentsTimeout (m : FragmentMap) (key : FragmentKey) : FragmentMap :=
  Function.update m key none

def isFragment (h : Ipv4Header) : Bool := !h.isLastFragment || h.fragmentOffset ≠ 0

/-- `LocalDeliver`: the packet for the protocol above. -/
def localDeliver (m : FragmentMap) (p : Ipv4PayloadHeaderPair) :
    Option (List UInt8) × FragmentMap :=
  if isFragment p.header then processFragment m p
  else (some p.packet, m)

end Ipv4L3Protocol

end Ns3.Internet
