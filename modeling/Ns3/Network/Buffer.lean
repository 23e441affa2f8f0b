import Ns3.Library.Regions

/-!
# Buffers over shared storage

A buffer is a window of a storage that it may share with its copies. In the middle of the window
lies a zero area of which the storage holds nothing. `none` is a failed assertion or an access
outside of the storage.
-/

namespace Ns3.Network

open Regions

/-- A `uint32_t`. -/
def u32 (n : Nat) : Nat := n % 4294967296

/-- The difference of two `uint32_t`. -/
def sub32 (m n : Nat) : Nat := (m + 4294967296 - n) % 4294967296

theorem u32_eq {n : Nat} (small : n < 4294967296) : u32 n = n := Nat.mod_eq_of_lt small

theorem sub32_eq {m n : Nat} (le : n ≤ m) (small : m < 4294967296) : sub32 m n = m - n := by
  unfold sub32
  omega

structure Buffer where
  data : Nat
  maxZeroAreaStart : Nat
  zeroAreaStart : Nat
  zeroAreaEnd : Nat
  start : Nat
  end_ : Nat
  deriving DecidableEq, Repr

namespace Buffer

structure Data where
  count : Nat
  size : Nat
  dirtyStart : Nat
  dirtyEnd : Nat
  data : Nat → UInt8

/-- The storages by address, and the static members of the class. The last storage of the free
list stands first, and `garbage` is what newly allocated memory happens to hold. -/
structure Heap where
  data : Nat → Option Data
  next : Nat
  freeList : List Nat
  maxSize : Nat
  recommendedStart : Nat
  garbage : Nat → Nat → UInt8

namespace Heap

/-- No buffer was made yet. -/
def empty (garbage : Nat → Nat → UInt8) (recommendedStart : Nat) : Heap :=
  ⟨fun _ => none, 0, [], 0, recommendedStart, garbage⟩

def put (h : Heap) (a : Nat) (d : Data) : Heap :=
  { h with data := Function.update h.data a (some d) }

def read (h : Heap) (a p n : Nat) : Option (List UInt8) := do
  let d ← h.data a
  guard (n = 0 ∨ p + n ≤ d.size)
  return slice d.data p n

def write (h : Heap) (a p : Nat) (bytes : List UInt8) : Option Heap := do
  let d ← h.data a
  guard (bytes.length = 0 ∨ p + bytes.length ≤ d.size)
  return h.put a { d with data := patch d.data p bytes }

def erase (h : Heap) (a : Nat) : Heap := { h with data := Function.update h.data a none }

def deallocate (h : Heap) (a : Nat) : Option Heap := do
  let d ← h.data a
  guard (d.count = 0)
  return h.erase a

/-- A size that wraps around would leave a storage smaller than its `m_size`. -/
def allocate (h : Heap) (reqSize : Nat) : Option (Heap × Nat) := do
  let reqSize := if reqSize = 0 then 1 else reqSize
  let reqSize := reqSize + 100
  guard (reqSize - 1 + 20 < 4294967296)
  return ({ h with next := h.next + 1 }.put h.next ⟨1, reqSize, 0, 0, h.garbage h.next⟩, h.next)

def createFrom (dataSize : Nat) (h : Heap) : List Nat → Option (Heap × Nat)
  | [] => { h with freeList := [] }.allocate dataSize
  | a :: freeList => do
    let d ← h.data a
    if d.size ≥ dataSize then
      return ({ h with freeList := freeList }.put a { d with count := 1 }, a)
    else
      createFrom dataSize (← h.deallocate a) freeList

def create (h : Heap) (dataSize : Nat) : Option (Heap × Nat) :=
  h.createFrom dataSize h.freeList

def recycle (h : Heap) (a : Nat) : Option Heap := do
  let d ← h.data a
  guard (d.count = 0)
  let maxSize := max h.maxSize d.size
  if d.size < maxSize ∨ h.freeList.length > 1000 then
    deallocate { h with maxSize := maxSize } a
  else
    return { h with maxSize := maxSize, freeList := a :: h.freeList }

/-- `m_data->m_count--`, and the recycling of a storage without buffers. -/
def release (h : Heap) (a : Nat) : Option Heap := do
  let d ← h.data a
  let d := { d with count := d.count - 1 }
  if d.count = 0 then (h.put a d).recycle a else return h.put a d

/-- `m_data->m_count++`. -/
def retain (h : Heap) (a : Nat) : Option Heap := do
  let d ← h.data a
  return h.put a { d with count := d.count + 1 }

def recommend (h : Heap) (b : Buffer) : Heap :=
  { h with recommendedStart := max h.recommendedStart b.maxZeroAreaStart }

end Heap

def initializeBuffer (h : Heap) (zeroSize : Nat) : Option (Heap × Buffer) := do
  let (h, a) ← h.create 0
  let d ← h.data a
  let start := min d.size h.recommendedStart
  let b : Buffer := ⟨a, start, start, u32 (start + zeroSize), start, u32 (start + zeroSize)⟩
  return (h.put a { d with dirtyStart := b.start, dirtyEnd := b.end_ }, b)

/-- The copy constructor. -/
def copy (h : Heap) (o : Buffer) : Option (Heap × Buffer) := do
  return (← h.retain o.data, { o with maxZeroAreaStart := o.zeroAreaStart })

/-- `operator=`. -/
def assign (h : Heap) (b o : Buffer) : Option (Heap × Buffer) := do
  if b.data ≠ o.data then
    let h ← h.release b.data
    let h ← h.retain o.data
    return (h.recommend b, o)
  else
    return (h.recommend b, o)

/-- The destructor. -/
def destroy (h : Heap) (b : Buffer) : Option Heap :=
  (h.recommend b).release b.data

def getSize (b : Buffer) : Nat := sub32 b.end_ b.start

def getInternalSize (b : Buffer) : Nat :=
  sub32 (u32 (sub32 b.zeroAreaStart b.start + b.end_)) b.zeroAreaEnd

def getInternalEnd (b : Buffer) : Nat := sub32 b.end_ (sub32 b.zeroAreaEnd b.zeroAreaStart)

def raiseMax (b : Buffer) : Buffer :=
  { b with maxZeroAreaStart := max b.maxZeroAreaStart b.zeroAreaStart }

/-- The buffer in another storage, with all offsets moved by `delta`. -/
def move (b : Buffer) (data delta : Nat) : Buffer where
  data := data
  maxZeroAreaStart := b.maxZeroAreaStart
  zeroAreaStart := u32 (b.zeroAreaStart + delta)
  zeroAreaEnd := u32 (b.zeroAreaEnd + delta)
  start := u32 (b.start + delta)
  end_ := u32 (b.end_ + delta)

def addAtStart (h : Heap) (b : Buffer) (start : Nat) : Option (Heap × Buffer) := do
  let d ← h.data b.data
  if b.start ≥ start ∧ ¬ (d.count > 1 ∧ b.start > d.dirtyStart) then
    guard (d.count = 1 ∨ b.start = d.dirtyStart)
    let b := { b with start := b.start - start }
    return (h.put b.data { d with dirtyStart := b.start }, b.raiseMax)
  else
    let (h, newData) ← h.create (u32 (b.getInternalSize + start))
    let h ← h.write newData start (← h.read b.data b.start b.getInternalSize)
    let h ← h.release b.data
    let b := b.move newData (sub32 start b.start)
    let b := { b with start := sub32 b.start start }
    let d ← h.data newData
    return (h.put newData { d with dirtyStart := b.start, dirtyEnd := b.end_ }, b.raiseMax)

def addAtEnd (h : Heap) (b : Buffer) (end_ : Nat) : Option (Heap × Buffer) := do
  let d ← h.data b.data
  if u32 (b.getInternalEnd + end_) ≤ d.size ∧ ¬ (d.count > 1 ∧ b.end_ < d.dirtyEnd) then
    guard (d.count = 1 ∨ b.end_ = d.dirtyEnd)
    let b := { b with end_ := u32 (b.end_ + end_) }
    return (h.put b.data { d with dirtyEnd := b.end_ }, b.raiseMax)
  else
    let (h, newData) ← h.create (u32 (b.getInternalSize + end_))
    let h ← h.write newData 0 (← h.read b.data b.start b.getInternalSize)
    let h ← h.release b.data
    let b := b.move newData (sub32 0 b.start)
    let b := { b with end_ := u32 (b.end_ + end_) }
    let d ← h.data newData
    return (h.put newData { d with dirtyStart := b.start, dirtyEnd := b.end_ }, b.raiseMax)

def removeAtStart (b : Buffer) (start : Nat) : Option Buffer := do
  let newStart := u32 (b.start + start)
  if newStart ≤ b.zeroAreaStart then
    return { b with start := newStart }.raiseMax
  else if newStart ≤ b.zeroAreaEnd then
    let delta := sub32 newStart b.zeroAreaStart
    return { b with
      start := b.zeroAreaStart
      zeroAreaEnd := sub32 b.zeroAreaEnd delta
      end_ := sub32 b.end_ delta }.raiseMax
  else if newStart ≤ b.end_ then
    guard (b.end_ ≥ start)
    let zeroSize := sub32 b.zeroAreaEnd b.zeroAreaStart
    let newStart := sub32 newStart zeroSize
    return { b with
      start := newStart
      end_ := sub32 b.end_ zeroSize
      zeroAreaStart := newStart
      zeroAreaEnd := newStart }.raiseMax
  else
    let end_ := sub32 b.end_ (sub32 b.zeroAreaEnd b.zeroAreaStart)
    return { b with start := end_, end_ := end_, zeroAreaStart := end_, zeroAreaEnd := end_ }.raiseMax

def removeAtEnd (b : Buffer) (end_ : Nat) : Buffer :=
  let newEnd := sub32 b.end_ (min end_ (sub32 b.end_ b.start))
  if newEnd > b.zeroAreaEnd then
    { b with end_ := newEnd }.raiseMax
  else if newEnd > b.zeroAreaStart then
    { b with end_ := newEnd, zeroAreaEnd := newEnd }.raiseMax
  else if newEnd > b.start then
    { b with end_ := newEnd, zeroAreaEnd := newEnd, zeroAreaStart := newEnd }.raiseMax
  else
    { b with end_ := b.start, zeroAreaEnd := b.start, zeroAreaStart := b.start }.raiseMax

def createFragment (h : Heap) (b : Buffer) (start length : Nat) : Option (Heap × Buffer) := do
  let (h, tmp) ← copy h b
  let tmp ← tmp.removeAtStart start
  return (h, tmp.removeAtEnd (sub32 b.getSize (u32 (start + length))))

structure Iterator where
  zeroStart : Nat
  zeroEnd : Nat
  dataStart : Nat
  dataEnd : Nat
  current : Nat
  data : Nat
  deriving DecidableEq, Repr

/-- `Iterator::Construct`. -/
def iteratorAt (b : Buffer) (current : Nat) : Iterator :=
  ⟨b.zeroAreaStart, b.zeroAreaEnd, b.start, b.end_, current, b.data⟩

def beginIterator (b : Buffer) : Iterator := b.iteratorAt b.start

def endIterator (b : Buffer) : Iterator := b.iteratorAt b.end_

namespace Iterator

def prev (i : Iterator) (delta : Nat) : Option Iterator := do
  guard (i.current ≥ delta)
  return { i with current := i.current - delta }

def CheckNoZero (i : Iterator) (start end_ : Nat) : Prop :=
  ¬ (start < i.dataStart ∨ end_ > i.dataEnd ∨
    (end_ > i.zeroStart ∧ start < i.zeroEnd ∧ i.zeroEnd ≠ i.zeroStart ∧ start ≠ end_))

instance (i : Iterator) (start end_ : Nat) : Decidable (i.CheckNoZero start end_) :=
  inferInstanceAs (Decidable (¬ _))

/-- The place in the storage, behind the zero area or not. -/
def place (i : Iterator) : Nat :=
  if i.current ≤ i.zeroStart then i.current
  else sub32 i.current (sub32 i.zeroEnd i.zeroStart)

/-- `WriteU8(data, len)`. -/
def writeU8 (h : Heap) (i : Iterator) (data : UInt8) (len : Nat) : Option (Heap × Iterator) := do
  guard (i.CheckNoZero i.current (u32 (i.current + len)))
  let h ← h.write i.data i.place (List.replicate len data)
  return (h, { i with current := u32 (i.current + len) })

/-- `Write(buffer, size)`. The end of the check is the size alone. -/
def write (h : Heap) (i : Iterator) (buffer : List UInt8) : Option (Heap × Iterator) := do
  guard (i.CheckNoZero i.current buffer.length)
  let h ← h.write i.data i.place buffer
  return (h, { i with current := u32 (i.current + buffer.length) })

/-- Both iterators after `toCopy` bytes, and what is left. -/
def advance (i start : Iterator) (size toCopy : Nat) : Iterator × Iterator × Nat :=
  ({ i with current := u32 (i.current + toCopy) },
    { start with current := u32 (start.current + toCopy) }, sub32 size toCopy)

/-- `Write(start, end)`. The place of the writing is the offset itself. -/
def writeRange (h : Heap) (i start end_ : Iterator) : Option (Heap × Iterator) := do
  guard (start.data = end_.data)
  guard (start.current ≤ end_.current)
  guard (start.zeroStart = end_.zeroStart)
  guard (start.zeroEnd = end_.zeroEnd)
  guard (i.data ≠ start.data)
  let size := sub32 end_.current start.current
  guard (i.CheckNoZero i.current (u32 (i.current + size)))
  let (h, i, start, size) ←
    if start.current ≤ start.zeroStart then do
      let toCopy := min size (sub32 start.zeroStart start.current)
      let h ← h.write i.data i.current (← h.read start.data start.current toCopy)
      pure (h, i.advance start size toCopy)
    else pure (h, i, start, size)
  let (h, i, start, size) ←
    if start.current ≤ start.zeroEnd then do
      let toCopy := min size (sub32 start.zeroEnd start.current)
      let h ← h.write i.data i.current (List.replicate toCopy 0)
      pure (h, i.advance start size toCopy)
    else pure (h, i, start, size)
  let toCopy := min size (sub32 start.dataEnd start.current)
  let source := sub32 start.current (sub32 start.zeroEnd start.zeroStart)
  let h ← h.write i.data i.current (← h.read start.data source toCopy)
  return (h, { i with current := u32 (i.current + toCopy) })

end Iterator

def createFullCopy (h : Heap) (b : Buffer) : Option (Heap × Buffer) := do
  let zeroSize := sub32 b.zeroAreaEnd b.zeroAreaStart
  if zeroSize ≠ 0 then
    let (h, tmp) ← initializeBuffer h 0
    let (h, tmp) ← addAtStart h tmp zeroSize
    let (h, _) ← tmp.beginIterator.writeU8 h 0 zeroSize
    let dataStart := sub32 b.zeroAreaStart b.start
    let (h, tmp) ← addAtStart h tmp dataStart
    let (h, _) ← tmp.beginIterator.write h (← h.read b.data b.start dataStart)
    let dataEnd := sub32 b.end_ b.zeroAreaEnd
    let (h, tmp) ← addAtEnd h tmp dataEnd
    let i ← tmp.endIterator.prev dataEnd
    let (h, _) ← i.write h (← h.read b.data b.zeroAreaStart dataEnd)
    return (h, tmp)
  else
    copy h b

/-- `*this = CreateFullCopy()`, which is all that `TransformIntoRealBuffer` does. -/
def transformIntoRealBuffer (h : Heap) (b : Buffer) : Option (Heap × Buffer) := do
  let (h, tmp) ← createFullCopy h b
  let (h, b) ← assign h b tmp
  return (← destroy h tmp, b)

end Buffer

end Ns3.Network
