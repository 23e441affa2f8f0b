import Mathlib
import Ns3.Library.Circular

/-!
# `TcpRxBuffer`

The map `m_data` is the list of its entries in the order of their keys. A failed
`NS_ASSERT` goes on, as in an optimized build.
-/

namespace Ns3.Internet

instance neZeroHalf : NeZero (2 ^ 31 : Nat) := ⟨by decide⟩

abbrev SequenceNumber32 := Serial (2 ^ 31)

namespace SequenceNumber32

def Le (a b : SequenceNumber32) : Prop := ¬ a.Gt b

def Ge (a b : SequenceNumber32) : Prop := a.Gt b ∨ a = b

def Lt (a b : SequenceNumber32) : Prop := ¬ a.Gt b ∧ a ≠ b

instance (a b : SequenceNumber32) : Decidable (Le a b) := inferInstanceAs (Decidable (¬ _))

instance (a b : SequenceNumber32) : Decidable (Ge a b) := inferInstanceAs (Decidable (_ ∨ _))

instance (a b : SequenceNumber32) : Decidable (Lt a b) := inferInstanceAs (Decidable (_ ∧ _))

end SequenceNumber32

open SequenceNumber32

/-- A sum of `uint32_t`. -/
def add32 (a b : Nat) : Nat := (a + b) % 2 ^ 32

/-- A difference of `uint32_t`. -/
def sub32 (a b : Nat) : Nat := (a + 2 ^ 32 - b % 2 ^ 32) % 2 ^ 32

/-- `Packet::CreateFragment`: `RemoveAtStart`, then `RemoveAtEnd`. -/
def createFragment (p : List UInt8) (start length : Nat) : List UInt8 :=
  let rest := p.drop start
  rest.take (rest.length - sub32 p.length (add32 start length))

/-- A `std::map` as its entries in order. -/
abbrev Segments := List (SequenceNumber32 × List UInt8)

/-- `m_data[key] = p` -/
def Segments.assign (key : SequenceNumber32) (p : List UInt8) : Segments → Segments
  | [] => [(key, p)]
  | (first, old) :: rest =>
    if Lt key first then (key, p) :: (first, old) :: rest
    else if Lt first key then (first, old) :: assign key p rest
    else (first, p) :: rest

def Segments.eraseKey (key : SequenceNumber32) (data : Segments) : Segments :=
  data.eraseP fun entry => entry.1 = key

abbrev SackBlock := SequenceNumber32 × SequenceNumber32

/-- The first block that `begin` merges with, the merged block and the other ones. -/
def mergeFirst (head : SackBlock) : List SackBlock → Option (SackBlock × List SackBlock)
  | [] => none
  | current :: rest =>
    if head.1 = current.2 then some ((current.1, head.2), rest)
    else if head.2 = current.1 then some ((head.1, current.2), rest)
    else (mergeFirst head rest).map fun (merged, others) => (merged, current :: others)

/-- The scan starts again at the merged block. Each merge takes one block away. -/
def mergeAll : Nat → SackBlock → List SackBlock → List SackBlock
  | 0, head, blocks => head :: blocks
  | n + 1, head, blocks =>
    match mergeFirst head blocks with
    | none => head :: blocks
    | some (merged, others) => mergeAll n merged others

structure TcpRxBuffer where
  sackList : List SackBlock
  nextRxSeq : SequenceNumber32
  finSeq : SequenceNumber32
  gotFin : Bool
  size : Nat
  maxBuffer : Nat
  availBytes : Nat
  data : Segments

namespace TcpRxBuffer

variable (b : TcpRxBuffer)

def create (n : SequenceNumber32) : TcpRxBuffer where
  sackList := []
  nextRxSeq := n
  finSeq := .of 0
  gotFin := false
  size := 0
  maxBuffer := 32768
  availBytes := 0
  data := []

def setMaxBufferSize (s : Nat) : TcpRxBuffer := { b with maxBuffer := s }

def setFinSequence (s : SequenceNumber32) : TcpRxBuffer :=
  { b with
    gotFin := true
    finSeq := s
    nextRxSeq := if b.nextRxSeq = s then b.nextRxSeq.add 1 else b.nextRxSeq }

def updateSackList (head tail : SequenceNumber32) : TcpRxBuffer :=
  let merged := mergeAll b.sackList.length (head, tail) b.sackList
  { b with sackList := if merged.length > 4 then merged.dropLast else merged }

def clearSackList (seq : SequenceNumber32) (blocks : List SackBlock) : List SackBlock :=
  blocks.filter fun block => ¬ Le block.2 seq

/-- What a segment is trimmed to, with what is left of `m_data` and `m_size`. -/
structure Trimmed where
  data : Segments
  size : Nat
  headSeq : SequenceNumber32
  tailSeq : SequenceNumber32

/-- The loop of `Add` that removes the overlapped bytes. -/
def removeOverlap : Segments → Nat → SequenceNumber32 → SequenceNumber32 → Trimmed
  | [], size, headSeq, tailSeq => ⟨[], size, headSeq, tailSeq⟩
  | (first, p) :: rest, size, headSeq, tailSeq =>
    if ¬ Le first tailSeq then ⟨(first, p) :: rest, size, headSeq, tailSeq⟩
    else
      let lastByteSeq := first.add p.length
      if lastByteSeq.Gt headSeq then
        if first.Gt headSeq ∧ Lt lastByteSeq tailSeq then
          removeOverlap rest (sub32 size p.length) headSeq tailSeq
        else
          let next := removeOverlap rest size
            (if Le first headSeq then lastByteSeq else headSeq)
            (if Ge lastByteSeq tailSeq then first else tailSeq)
          { next with data := (first, p) :: next.data }
      else
        let next := removeOverlap rest size headSeq tailSeq
        { next with data := (first, p) :: next.data }

/-- The part of a segment that is in the window. -/
def fitWindow (headSeq tailSeq : SequenceNumber32) : SequenceNumber32 × SequenceNumber32 :=
  let headSeq := if Lt headSeq b.nextRxSeq then b.nextRxSeq else headSeq
  match b.data with
  | [] => (headSeq, tailSeq)
  | (front, _) :: _ =>
    let maxSeq := front.add b.maxBuffer
    let tailSeq := if Lt maxSeq tailSeq then maxSeq else tailSeq
    (if Lt tailSeq headSeq then tailSeq else headSeq, tailSeq)

/-- The loop of `Add` over the data that is now in sequence. -/
def advance : Segments → TcpRxBuffer → TcpRxBuffer
  | [], b => b
  | (first, p) :: rest, b =>
    if Lt first b.nextRxSeq then advance rest b
    else if first.Gt b.nextRxSeq then b
    else
      let next := first.add p.length
      advance rest { b with
        nextRxSeq := next
        availBytes := add32 b.availBytes p.length
        sackList := clearSackList next b.sackList }

/-- `Add` of a packet with its sequence number. -/
def add (p : List UInt8) (seq : SequenceNumber32) : TcpRxBuffer × Bool :=
  let (headSeq, tailSeq) := b.fitWindow seq (seq.add p.length)
  let t := removeOverlap b.data b.size headSeq tailSeq
  let b := { b with data := t.data, size := t.size }
  if Ge t.headSeq t.tailSeq then (b, false)
  else
    let p := createFragment p (t.headSeq.sub seq) (t.tailSeq.sub t.headSeq)
    let b := { b with data := b.data.assign t.headSeq p }
    let b := if t.headSeq.Gt b.nextRxSeq then b.updateSackList t.headSeq t.tailSeq else b
    let b := { b with size := add32 b.size p.length }
    let b := advance b.data b
    let b := if b.gotFin ∧ b.nextRxSeq = b.finSeq then
        { b with nextRxSeq := b.nextRxSeq.add 1 }
      else b
    (b, true)

/-- The loop of `Extract`. The front of an empty map is undefined. -/
def extractLoop : Segments → TcpRxBuffer → Nat → List UInt8 →
    Option (TcpRxBuffer × List UInt8)
  | data, b, 0, outPkt => some ({ b with data }, outPkt)
  | [], _, _ + 1, _ => none
  | (first, p) :: rest, b, extractSize + 1, outPkt =>
    if p.length ≤ extractSize + 1 then
      extractLoop rest
        { b with
          size := sub32 b.size p.length
          availBytes := sub32 b.availBytes p.length }
        (extractSize + 1 - p.length) (outPkt ++ p)
    else
      let left := createFragment p (extractSize + 1) (p.length - (extractSize + 1))
      let data := Segments.assign (first.add (extractSize + 1)) left ((first, p) :: rest)
      some ({ b with
        data := Segments.eraseKey first data
        size := sub32 b.size (extractSize + 1)
        availBytes := sub32 b.availBytes (extractSize + 1) },
        outPkt ++ createFragment p 0 (extractSize + 1))

/-- The packet is `none` when nothing is extracted. -/
def extract (maxSize : Nat) : Option (TcpRxBuffer × Option (List UInt8)) :=
  let extractSize := min maxSize b.availBytes
  if extractSize = 0 then some (b, none)
  else do
    let (b, outPkt) ← extractLoop b.data b extractSize []
    return (b, if outPkt = [] then none else some outPkt)

end TcpRxBuffer

/-! ## A receiver -/

/-- The bytes of a stream by their place, which starts at `start` and may have an end. -/
structure Stream where
  start : Nat
  byte : Nat → UInt8
  finish : Option Nat

/-- Some bytes of the stream. -/
def Stream.bytes (stream : Stream) (place length : Nat) : List UInt8 :=
  (List.range' place length).map stream.byte

/-- The buffer with all that was extracted from it. -/
structure TcpReceiver where
  buffer : TcpRxBuffer
  read : List UInt8

inductive RxEvent where
  /-- A segment that is cut from the stream. -/
  | add (place length : Nat)
  | extract (maxSize : Nat)
  | setFinSequence
  | setMaxBufferSize (s : Nat)

namespace TcpReceiver

/-- The sequence numbers are those of the places. -/
def create (stream : Stream) : TcpReceiver := ⟨.create (.of stream.start), []⟩

def step (stream : Stream) (r : TcpReceiver) : RxEvent → Option TcpReceiver
  | .add place length =>
    if stream.start ≤ place ∧ ∀ last ∈ stream.finish, place + length ≤ last then
      some { r with buffer := (r.buffer.add (stream.bytes place length) (.of place)).1 }
    else none
  | .extract maxSize => do
    let (buffer, packet) ← r.buffer.extract maxSize
    return ⟨buffer, r.read ++ packet.getD []⟩
  | .setFinSequence => do
    let last ← stream.finish
    return { r with buffer := r.buffer.setFinSequence (.of last) }
  | .setMaxBufferSize s => some { r with buffer := r.buffer.setMaxBufferSize (s % 2 ^ 32) }

end TcpReceiver

end Ns3.Internet
