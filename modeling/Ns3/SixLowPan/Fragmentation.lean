import Ns3.Internet.TcpRxBuffer
import Ns3.Library.Segments
import Ns3.Time

/-!
# Fragmentation of `SixLowPanNetDevice`

`none` is a failed `NS_ASSERT`, `NS_ABORT_MSG` or `NS_FATAL_ERROR`, the use of a
null pointer, or a loop without end. The fragmentation headers stay values, with
what `Serialize` and `Deserialize` keep of their fields.
-/

namespace Ns3.SixLowPan

open Internet (add32 sub32 createFragment)

structure SixLowPanFrag1 where
  datagramSize : Nat
  datagramTag : Nat
  deriving DecidableEq

structure SixLowPanFragN where
  datagramSize : Nat
  datagramTag : Nat
  datagramOffset : Nat
  deriving DecidableEq

def SixLowPanFrag1.serializedSize : Nat := 4

def SixLowPanFragN.serializedSize : Nat := 5

/-- A packet behind a fragmentation header. -/
inductive Fragment
  | frag1 (header : SixLowPanFrag1) (packet : List UInt8)
  | fragN (header : SixLowPanFragN) (packet : List UInt8)
  deriving DecidableEq

namespace Fragment

def getSize : Fragment → Nat
  | frag1 _ packet => SixLowPanFrag1.serializedSize + packet.length
  | fragN _ packet => SixLowPanFragN.serializedSize + packet.length

def getDatagramSize : Fragment → Nat
  | frag1 header _ => header.datagramSize
  | fragN header _ => header.datagramSize

def getDatagramTag : Fragment → Nat
  | frag1 header _ => header.datagramTag
  | fragN header _ => header.datagramTag

end Fragment

/-! ## Sending -/

section

variable (l2Mtu tag : Nat) (packet : List UInt8) (origPacketSize origHdrSize extraHdrSize : Nat)

/-- The loop for the fragments behind the first one. The counter ends when it
would run on without end. -/
def nextFragments : Nat → Nat → Nat → Option (List Fragment)
  | 0, _, _ => none
  | rounds + 1, offset, offsetData =>
    let size := sub32 (sub32 l2Mtu SixLowPanFragN.serializedSize) extraHdrSize
    let size := size - size % 8
    let moreFrag := add32 offsetData size ≤ packet.length
    let size := if moreFrag then size else sub32 packet.length offsetData
    if 0 < size then
      let fragment := createFragment packet offsetData size
      let header := ⟨origPacketSize % 2 ^ 11, tag, offset / 8 % 2 ^ 8⟩
      if moreFrag then
        (nextFragments rounds ((offset + size) % 2 ^ 16) ((offsetData + size) % 2 ^ 16)).map
          (.fragN header fragment :: ·)
      else some [.fragN header fragment]
    else if moreFrag then nextFragments rounds offset offsetData
    else some []

/-- `DoFragmentation`, with the tag that is drawn. -/
def doFragmentation : Option (List Fragment) :=
  let compressedHeaderSize := sub32 packet.length (sub32 origPacketSize origHdrSize)
  if l2Mtu ≤ SixLowPanFrag1.serializedSize then none
  else
    let size := sub32 (sub32 (sub32 l2Mtu SixLowPanFrag1.serializedSize) compressedHeaderSize)
      extraHdrSize
    let size := add32 (size - size % 8) compressedHeaderSize
    let offset := sub32 (add32 size origHdrSize) compressedHeaderSize % 2 ^ 16
    (nextFragments l2Mtu tag packet origPacketSize extraHdrSize (packet.length + 1) offset
      (size % 2 ^ 16)).map
        (.frag1 ⟨origPacketSize % 2 ^ 11, tag⟩ (createFragment packet 0 size) :: ·)

end

/-! ## The fragments of a datagram -/

/-- `FragmentKey_t`, with `A` the addresses. -/
structure FragmentKey (A : Type) where
  src : A
  dst : A
  datagramSize : Nat
  datagramTag : Nat
  deriving DecidableEq

def Fragment.key {A : Type} (src dst : A) (f : Fragment) : FragmentKey A :=
  ⟨src, dst, f.getDatagramSize, f.getDatagramTag⟩

/-- `Fragments`. An iterator into the list of timeouts is the number of the entry. -/
structure Fragments where
  fragments : List (Segment UInt8)
  packetSize : Nat
  firstFragment : Option (SixLowPanFrag1 × List UInt8)
  timeoutIter : Nat

namespace Fragments

/-- `AddFragment`, on the list. -/
def addFragment (x : Segment UInt8) : List (Segment UInt8) → Option (List (Segment UInt8))
  | [] => some [x]
  | y :: ys =>
    if x.offset < y.offset then some (x :: y :: ys)
    else if y.offset = x.offset then
      if x.data.length = y.data.length then some (y :: ys) else none
    else (addFragment x ys).map (y :: ·)

/-- `AddFirstFragment`, for a first fragment. -/
def addFirstFragment (f : Fragment) (fs : Fragments) : Fragments :=
  match f with
  | .frag1 header packet => { fs with firstFragment := some (header, packet) }
  | .fragN _ _ => fs

/-- The loop of `IsEntire`, and its last test. -/
def reaches (packetSize : Nat) : Nat → List (Segment UInt8) → Bool
  | lastEndOffset, [] => lastEndOffset = packetSize
  | lastEndOffset, x :: xs =>
    if lastEndOffset < x.offset then false
    else reaches packetSize (max lastEndOffset ((x.data.length + x.offset) % 2 ^ 16)) xs

def isEntire (fs : Fragments) : Bool :=
  !fs.fragments.isEmpty && reaches fs.packetSize 0 fs.fragments

/-- The loop of `GetPacket`. -/
def addAtEnd : Nat → List UInt8 → List (Segment UInt8) → Option (List UInt8)
  | _, p, [] => some p
  | lastEndOffset, p, x :: xs =>
    if x.offset < lastEndOffset then none
    else addAtEnd ((lastEndOffset + x.data.length) % 2 ^ 16) (p ++ x.data) xs

/-- With the header of the first fragment, which the caller removes. -/
def getPacket (fs : Fragments) : Option (SixLowPanFrag1 × List UInt8) :=
  match fs.firstFragment, fs.fragments with
  | some (header, first), x :: xs =>
    (addAtEnd (x.data.length % 2 ^ 16) first xs).map (header, ·)
  | _, _ => none

def getFragments (fs : Fragments) : List (List UInt8) := fs.fragments.map (·.data)

end Fragments

/-! ## Receiving -/

/-- `SixLowPanDispatch::Dispatch_e` -/
inductive Dispatch
  | lowpanNalp
  | lowpanIpv6
  | lowpanHc1
  | lowpanBc0
  | lowpanIphc
  | lowpanMesh
  | lowpanFrag1
  | lowpanFragN
  | lowpanUnsupported
  deriving DecidableEq

def getDispatchType (dispatch : UInt8) : Dispatch :=
  if dispatch ≤ 0x3f then .lowpanNalp
  else if dispatch = 0x41 then .lowpanIpv6
  else if dispatch = 0x42 then .lowpanHc1
  else if dispatch = 0x50 then .lowpanBc0
  else if 0x60 ≤ dispatch ∧ dispatch ≤ 0x7f then .lowpanIphc
  else if 0x80 ≤ dispatch ∧ dispatch ≤ 0xbf then .lowpanMesh
  else if 0xc0 ≤ dispatch ∧ dispatch ≤ 0xc7 then .lowpanFrag1
  else if 0xe0 ≤ dispatch ∧ dispatch ≤ 0xe7 then .lowpanFragN
  else .lowpanUnsupported

/-- `DecompressLowPanHc1` and `DecompressLowPanIphc`, on the addresses and the packet. The
latter also answers whether it failed. -/
structure Decompression (A : Type) where
  decompressLowPanHc1 : A → A → List UInt8 → List UInt8
  decompressLowPanIphc : A → A → List UInt8 → List UInt8 × Bool

/-- A fragment as it is stored, or the packet that could not be decompressed. -/
inductive Unpacked
  | stored (x : Segment UInt8)
  | failed (p : List UInt8)

section

variable {A : Type} (decompression : Decompression A) (src dst : A)

/-- The first fragment is stored uncompressed. -/
def uncompress (p : List UInt8) : Option Unpacked :=
  match getDispatchType (p.headD 0) with
  | .lowpanIpv6 => some (.stored ⟨0, p.drop 1⟩)
  | .lowpanHc1 => some (.stored ⟨0, decompression.decompressLowPanHc1 src dst p⟩)
  | .lowpanIphc =>
    let (p, problem) := decompression.decompressLowPanIphc src dst p
    if problem then some (.failed p) else some (.stored ⟨0, p⟩)
  | _ => none

def Fragment.unpack : Fragment → Option Unpacked
  | frag1 _ packet => uncompress decompression src dst packet
  | fragN header packet => some (.stored ⟨header.datagramOffset * 8, packet⟩)

end

inductive DropReason
  | fragmentTimeout
  | fragmentBufferFull
  | satetfulDecompressionProblem
  deriving DecidableEq

/-- `m_dropTrace`, and what `ProcessFragment` returns: the packet, when it is true. -/
inductive Output
  | dropTrace (reason : DropReason) (p : List UInt8)
  | returned (packet : Option (List UInt8))
  deriving DecidableEq

/-- An entry of `m_timeoutEventList`, with its number. -/
structure FragmentsTimeout (A : Type) where
  iter : Nat
  expiration : Time
  key : FragmentKey A

/-- The attributes of the device. -/
structure SixLowPanAttributes where
  fragmentReassemblyListSize : Nat
  fragmentExpirationTimeout : Time
  notNegative : 0 ≤ fragmentExpirationTimeout

/-- The part of the device that reassembles, the time, and when `HandleTimeout` is scheduled. -/
structure SixLowPanNetDevice (A : Type) where
  now : Time
  fragments : AList fun _ : FragmentKey A => Fragments
  timeoutEventList : List (FragmentsTimeout A)
  nextIter : Nat
  timeoutEvents : List Time

namespace SixLowPanNetDevice

variable {A : Type} [DecidableEq A] (a : SixLowPanAttributes) (decompression : Decompression A)
  (d : SixLowPanNetDevice A)

def create (now : Time) : SixLowPanNetDevice A := ⟨now, ∅, [], 0, []⟩

/-- `m_timeoutEventList.erase` -/
def eraseIter (iter : Nat) (l : List (FragmentsTimeout A)) : List (FragmentsTimeout A) :=
  l.eraseP (·.iter = iter)

/-- With the new entry's iterator. -/
def setTimeout (key : FragmentKey A) : SixLowPanNetDevice A × Nat :=
  let expiration := d.now + a.fragmentExpirationTimeout
  ({ d with
    timeoutEvents :=
      if d.timeoutEventList.isEmpty then d.timeoutEvents ++ [expiration] else d.timeoutEvents
    timeoutEventList := d.timeoutEventList ++ [⟨d.nextIter, expiration, key⟩]
    nextIter := d.nextIter + 1 }, d.nextIter)

/-- The oldest datagram goes when the table is full. -/
def eraseOldest : Option (SixLowPanNetDevice A × List Output) :=
  if a.fragmentReassemblyListSize ≠ 0 ∧ a.fragmentReassemblyListSize ≤ d.fragments.keys.length then
    match d.timeoutEventList with
    | [] => none
    | oldest :: _ => (d.fragments.lookup oldest.key).map fun stored =>
      ({ d with
        timeoutEventList := eraseIter stored.timeoutIter d.timeoutEventList
        fragments := d.fragments.erase oldest.key },
        stored.getFragments.map (.dropTrace .fragmentBufferFull))
  else some (d, [])

/-- What is stored of the datagram of a fragment, perhaps just created. -/
def findFragments (key : FragmentKey A) (packetSize : Nat) :
    Option (SixLowPanNetDevice A × Fragments × List Output) :=
  match d.fragments.lookup key with
  | some fragments => some (d, fragments, [])
  | none => (d.eraseOldest a).map fun (d, dropped) =>
    let (d, iter) := d.setTimeout a key
    let fragments := ⟨[], packetSize, none, iter⟩
    ({ d with fragments := d.fragments.insert key fragments }, fragments, dropped)

def processFragment (src dst : A) (f : Fragment) : Option (SixLowPanNetDevice A × List Output) :=
  match f.unpack decompression src dst with
  | none => none
  | some (.failed p) =>
    some (d, [.dropTrace .satetfulDecompressionProblem p, .returned none])
  | some (.stored x) => do
    let key := f.key src dst
    let (d, fragments, dropped) ← d.findFragments a key f.getDatagramSize
    let stored ← Fragments.addFragment x fragments.fragments
    let fragments := { fragments with fragments := stored }.addFirstFragment f
    if fragments.isEntire then
      let (_, packet) ← fragments.getPacket
      return ({ d with
        timeoutEventList := eraseIter fragments.timeoutIter d.timeoutEventList
        fragments := d.fragments.erase key }, dropped ++ [.returned (some packet)])
    else
      return ({ d with fragments := d.fragments.insert key fragments }, dropped ++ [.returned none])

/-- `HandleFragmentsTimeout` -/
def handleFragmentsTimeout (key : FragmentKey A) : Option (SixLowPanNetDevice A × List Output) :=
  (d.fragments.lookup key).map fun stored =>
    ({ d with fragments := d.fragments.erase key },
      stored.getFragments.map (.dropTrace .fragmentTimeout))

/-- The loop of `HandleTimeout`, on the entries of `m_timeoutEventList`. -/
def expire : List (FragmentsTimeout A) → SixLowPanNetDevice A →
    Option (SixLowPanNetDevice A × List Output)
  | [], d => some (d, [])
  | e :: rest, d =>
    if e.expiration = d.now then do
      let (d, dropped) ← d.handleFragmentsTimeout e.key
      let (d, others) ← expire rest { d with timeoutEventList := rest }
      return (d, dropped ++ others)
    else some (d, [])

def handleTimeout : Option (SixLowPanNetDevice A × List Output) :=
  (expire d.timeoutEventList d).map fun (d, dropped) =>
    match d.timeoutEventList with
    | [] => (d, dropped)
    | e :: _ => ({ d with timeoutEvents := d.timeoutEvents ++ [e.expiration] }, dropped)

end SixLowPanNetDevice

/-- A fragment arrives, time passes, or a scheduled `HandleTimeout` runs. -/
inductive Event (A : Type)
  | arrive (src dst : A) (f : Fragment)
  | elapse (now : Time)
  | timeout

/-- Time does not pass a scheduled event. -/
def SixLowPanNetDevice.step {A : Type} [DecidableEq A] (a : SixLowPanAttributes)
    (decompression : Decompression A) (d : SixLowPanNetDevice A) :
    Event A → Option (SixLowPanNetDevice A × List Output)
  | .arrive src dst f => d.processFragment a decompression src dst f
  | .elapse now =>
    if d.now ≤ now ∧ ∀ t ∈ d.timeoutEvents, now ≤ t then some ({ d with now }, []) else none
  | .timeout =>
    if d.now ∈ d.timeoutEvents then
      { d with timeoutEvents := d.timeoutEvents.erase d.now }.handleTimeout
    else none

end Ns3.SixLowPan
