import Mathlib.Data.List.AList
import Ns3.Library.SharedStacks

/-!
# `PacketTagList`

The nodes are in a heap and the lists point to their first node. `none` is a
read through a null or dangling pointer, a write past the end of a node's data,
or a use of a list that is not alive.
-/

namespace Ns3.Network

open SharedStacks

abbrev Addr := Nat

/-- A tag's type and what it serializes to. -/
structure Tag where
  tid : Nat
  data : List UInt8
  deriving DecidableEq

/-- The `size` is the length of the data. -/
structure TagData where
  next : Option Addr
  count : Nat
  tid : Nat
  data : List UInt8
  deriving DecidableEq

abbrev Heap := AList fun _ : Addr => TagData

/-- A choice of the address of each new node. -/
structure Malloc where
  address : Heap → Addr
  fresh : ∀ heap, address heap ∉ heap

/-- `count++` and `count--` of a `uint32_t`. -/
def increment (count : Nat) : Nat := (count + 1) % 2 ^ 32

def decrement (count : Nat) : Nat := (count + (2 ^ 32 - 1)) % 2 ^ 32

structure Memory where
  heap : Heap
  /-- `m_next` of each list that is alive. -/
  lists : AList fun _ : Nat => Option Addr

/-- Where the search of `COWTraverse` ends. -/
inductive Found where
  | ended
  | merge (cur : Addr) (prevNext : Cell Nat Addr)
  | here (cur : Addr) (prevNext : Cell Nat Addr)

namespace Memory

variable (m : Memory)

def empty : Memory := ⟨∅, ∅⟩

def get (a : Addr) : Option TagData := m.heap.lookup a

def put (a : Addr) (node : TagData) : Memory := { m with heap := m.heap.insert a node }

def free (a : Addr) : Memory := { m with heap := m.heap.erase a }

def head (l : Nat) : Option (Option Addr) := m.lists.lookup l

def setHead (l : Nat) (p : Option Addr) : Memory := { m with lists := m.lists.insert l p }

/-- `*prevNext = p` -/
def setNext (prevNext : Cell Nat Addr) (p : Option Addr) : Option Memory :=
  match prevNext with
  | .list l => some (m.setHead l p)
  | .node a => do
    let node ← m.get a
    return m.put a { node with next := p }

def setCount (a : Addr) (f : Nat → Nat) : Option Memory := do
  let node ← m.get a
  return m.put a { node with count := f node.count }

/-- `if (p != nullptr) p->count++` -/
def addReference : Option Addr → Option Memory
  | none => some m
  | some a => m.setCount a increment

/-- A loop visits each node at most once. -/
def rounds : Nat := m.heap.keys.length

/-! ## `COWTraverse` -/

/-- From the head until the type or a merge is found. -/
def search (tid : Nat) : (fuel : Nat) → Option Addr → Cell Nat Addr → Option Found
  | _, none, _ => some .ended
  | 0, some _, _ => none
  | fuel + 1, some cur, prevNext => do
    let node ← m.get cur
    if node.count > 1 then return .merge cur prevNext
    else if node.tid = tid then return .here cur prevNext
    else search tid fuel node.next (.node cur)

/-- Whether the type is there from a node on. -/
def contains (tid : Nat) : (fuel : Nat) → Option Addr → Option Bool
  | _, none => some false
  | 0, some _ => none
  | fuel + 1, some it => do
    let node ← m.get it
    if node.tid = tid then return true else contains tid fuel node.next

/-- The merge point moves down the list until it is at the type. -/
def copyUntil (malloc : Malloc) (tid : Nat) :
    (fuel : Nat) → Memory → Addr → Cell Nat Addr → Option (Memory × Addr × Cell Nat Addr)
  | 0, _, _, _ => none
  | fuel + 1, m, cur, prevNext => do
    let node ← m.get cur
    if node.tid = tid then return (m, cur, prevNext)
    else
      let unmerged ← m.setCount cur decrement
      let copy := malloc.address unmerged.heap
      let copied := unmerged.put copy { node with count := 1 }
      let next ← node.next
      let merged ← copied.setCount next increment
      let linked ← merged.setNext prevNext (some copy)
      copyUntil malloc tid fuel linked next (.node copy)

/-- The memory after a writer, and what the tag read. -/
abbrev Writer := Memory → (preMerge : Bool) → (cur : Addr) → (prevNext : Cell Nat Addr) →
  Option (Memory × List UInt8)

def cowTraverse (malloc : Malloc) (l tid : Nat) (writer : Writer) :
    Option (Memory × Option (List UInt8)) := do
  let next ← m.head l
  match ← m.search tid m.rounds next (.list l) with
  | .ended => return (m, none)
  | .here cur prevNext =>
    let (m', data) ← writer m true cur prevNext
    return (m', some data)
  | .merge cur prevNext =>
    if ← m.contains tid m.rounds (some cur) then
      let (m', cur', prevNext') ← copyUntil malloc tid m.rounds m cur prevNext
      let (m'', data) ← writer m' false cur' prevNext'
      return (m'', some data)
    else return (m, none)

def removeWriter : Writer := fun m preMerge cur prevNext => do
  let node ← m.get cur
  let linked ← m.setNext prevNext node.next
  if preMerge then return (linked.free cur, node.data)
  else
    let unmerged ← linked.setCount cur decrement
    let merged ← unmerged.addReference node.next
    return (merged, node.data)

/-- `Serialize` into a buffer. -/
def serialize (data buffer : List UInt8) : Option (List UInt8) :=
  if data.length ≤ buffer.length then some (data ++ buffer.drop data.length) else none

def replaceWriter (malloc : Malloc) (tag : Tag) : Writer := fun m preMerge cur prevNext => do
  let node ← m.get cur
  if preMerge then
    let data ← serialize tag.data node.data
    return (m.put cur { node with data }, [])
  else
    let unmerged ← m.setCount cur decrement
    let copy := malloc.address unmerged.heap
    let copied :=
      unmerged.put copy { next := node.next, count := 1, tid := tag.tid, data := tag.data }
    let merged ← copied.addReference node.next
    let linked ← merged.setNext prevNext (some copy)
    return (linked, [])

/-! ## The operations -/

def add (malloc : Malloc) (l : Nat) (tag : Tag) : Option Memory := do
  let next ← m.head l
  let head := malloc.address m.heap
  return (m.put head { next, count := 1, tid := tag.tid, data := tag.data }).setHead l (some head)

def peekFrom (tid : Nat) : (fuel : Nat) → Option Addr → Option (Option (List UInt8))
  | _, none => some none
  | 0, some _ => none
  | fuel + 1, some cur => do
    let node ← m.get cur
    if node.tid = tid then return some node.data else peekFrom tid fuel node.next

def peek (l tid : Nat) : Option (Option (List UInt8)) := do
  let next ← m.head l
  m.peekFrom tid m.rounds next

def remove (malloc : Malloc) (l tid : Nat) : Option (Memory × Option (List UInt8)) :=
  m.cowTraverse malloc l tid removeWriter

def replace (malloc : Malloc) (l : Nat) (tag : Tag) : Option (Memory × Bool) := do
  let (m', found) ← m.cowTraverse malloc l tag.tid (replaceWriter malloc tag)
  if found.isSome then return (m', true)
  else
    let added ← m'.add malloc l tag
    return (added, false)

/-- `free(prev)` unless it is null. -/
def freePrev : Option Addr → Memory
  | none => m
  | some prev => m.free prev

/-- The loop of `RemoveAll`. -/
def release : (fuel : Nat) → Memory → (prev cur : Option Addr) → Option Memory
  | _, m, prev, none => some (m.freePrev prev)
  | 0, _, _, some _ => none
  | fuel + 1, m, prev, some cur => do
    let node ← m.get cur
    let dropped := m.put cur { node with count := decrement node.count }
    if decrement node.count > 0 then return dropped.freePrev prev
    else release fuel (dropped.freePrev prev) (some cur) node.next

def removeAll (l : Nat) : Option Memory := do
  let next ← m.head l
  let released ← release m.rounds m none next
  return released.setHead l none

def create (l : Nat) : Option Memory :=
  if m.head l = none then some (m.setHead l none) else none

/-- The copy constructor. -/
def copy (l o : Nat) : Option Memory := do
  let next ← m.head o
  if m.head l = none then (m.setHead l next).addReference next else none

/-- `operator=` -/
def assign (l o : Nat) : Option Memory := do
  if (← m.head l) = (← m.head o) then return m
  else
    let removed ← m.removeAll l
    let next ← removed.head o
    (removed.setHead l next).addReference next

def destroy (l : Nat) : Option Memory := do
  let removed ← m.removeAll l
  return { removed with lists := removed.lists.erase l }

end Memory

/-! ## Programs -/

inductive TagEvent where
  | create (l : Nat)
  | copy (l o : Nat)
  | assign (l o : Nat)
  | add (l : Nat) (tag : Tag) (malloc : Malloc)
  | peek (l tid : Nat)
  | remove (l tid : Nat) (malloc : Malloc)
  | replace (l : Nat) (tag : Tag) (malloc : Malloc)
  | removeAll (l : Nat)
  | destroy (l : Nat)

/-- What a program sees of an operation. -/
inductive TagAnswer where
  /-- The data the tag was read from, if it was found. -/
  | found (data : Option (List UInt8))
  | replaced (found : Bool)
  deriving DecidableEq

def Memory.step (m : Memory) : TagEvent → Option (Memory × List TagAnswer)
  | .create l => do return (← m.create l, [])
  | .copy l o => do return (← m.copy l o, [])
  | .assign l o => do return (← m.assign l o, [])
  | .add l tag malloc => do return (← m.add malloc l tag, [])
  | .peek l tid => do return (m, [.found (← m.peek l tid)])
  | .remove l tid malloc => do
    let (m', data) ← m.remove malloc l tid
    return (m', [.found data])
  | .replace l tag malloc => do
    let (m', found) ← m.replace malloc l tag
    return (m', [.replaced found])
  | .removeAll l => do return (← m.removeAll l, [])
  | .destroy l => do return (← m.destroy l, [])

/-! ## Independent stacks -/

/-- Each list that is alive is a stack of its own. -/
abbrev TagStacks := Nat → Option (List Tag)

def topmost (tags : List Tag) (tid : Nat) : Option (List UInt8) :=
  (tags.find? (·.tid = tid)).map Tag.data

/-- The topmost tag of the type is exchanged, or the tag is put on top. -/
def exchange (tags : List Tag) (tag : Tag) : List Tag :=
  if tags.any (·.tid = tag.tid) then
    tags.takeWhile (·.tid ≠ tag.tid) ++ tag :: (tags.dropWhile (·.tid ≠ tag.tid)).tail
  else tag :: tags

def TagStacks.step (held : TagStacks) : TagEvent → Option (TagStacks × List TagAnswer)
  | .create l => if held l = none then some (Function.update held l (some []), []) else none
  | .copy l o => do
    let tags ← held o
    if held l = none then return (Function.update held l (some tags), []) else none
  | .assign l o => do
    let _ ← held l
    let tags ← held o
    return (Function.update held l (some tags), [])
  | .add l tag _ => do
    let tags ← held l
    return (Function.update held l (some (tag :: tags)), [])
  | .peek l tid => do
    let tags ← held l
    return (held, [.found (topmost tags tid)])
  | .remove l tid _ => do
    let tags ← held l
    return (Function.update held l (some (tags.eraseP (·.tid = tid))), [.found (topmost tags tid)])
  | .replace l tag _ => do
    let tags ← held l
    return (Function.update held l (some (exchange tags tag)),
      [.replaced (tags.any (·.tid = tag.tid))])
  | .removeAll l => do
    let _ ← held l
    return (Function.update held l (some []), [])
  | .destroy l => do
    let _ ← held l
    return (Function.update held l none, [])

end Ns3.Network
