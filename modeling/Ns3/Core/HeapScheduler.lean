import Ns3.Core.Simulator
import Ns3.Library.HeapOrder
import Ns3.Library.Machine

/-!
# `HeapScheduler`

The heap is an array whose first entry is not used. A failed `NS_ASSERT` goes
on, and `none` is a read of an empty heap.
-/

namespace Ns3.Core.HeapScheduler

/-- `m_heap` -/
abbrev Heap := List Event

/-- The entry at index zero. -/
def emptyEvent : Event := ⟨0, ⟨0, 0, 0⟩⟩

def create : Heap := [emptyEvent]

def entry (heap : Heap) (id : Nat) : Event := heap.getD id emptyEvent

def last (heap : Heap) : Nat := heap.length - 1

def exch (heap : Heap) (a b : Nat) : Heap := (heap.set a (entry heap b)).set b (entry heap a)

def isLessStrictly (heap : Heap) (a b : Nat) : Bool := (entry heap a).key.Lt (entry heap b).key

def smallest (heap : Heap) (a b : Nat) : Nat := if isLessStrictly heap a b then a else b

/-- `BottomUp` from an index, in at most that many rounds. -/
def bottomUp : (rounds index : Nat) → Heap → Heap
  | 0, _, heap => heap
  | rounds + 1, index, heap =>
    if index ≠ 1 ∧ isLessStrictly heap index (index / 2) then
      bottomUp rounds (index / 2) (exch heap index (index / 2))
    else heap

/-- `TopDown`, in at most as many rounds as there are entries. -/
def topDown : (rounds index : Nat) → Heap → Heap
  | 0, _, heap => heap
  | rounds + 1, index, heap =>
    let left := 2 * index
    let right := 2 * index + 1
    if right < heap.length then
      let least := smallest heap left right
      if isLessStrictly heap index least then heap
      else topDown rounds least (exch heap index least)
    else if heap.length ≤ index then heap
    else if heap.length ≤ left then heap
    else if isLessStrictly heap index left then heap
    else exch heap index left

def insert (heap : Heap) (ev : Event) : Heap :=
  let pushed := heap ++ [ev]
  bottomUp (last pushed) (last pushed) pushed

def isEmpty (heap : Heap) : Bool := heap.length = 1

def peekNext (heap : Heap) : Option Event := heap[1]?

/-- The last event takes the place of another and moves down. -/
def takeOut (heap : Heap) (id : Nat) : Heap :=
  let popped := (exch heap id (last heap)).dropLast
  topDown popped.length id popped

def removeNext (heap : Heap) : Option (Event × Heap) := do
  let next ← heap[1]?
  return (next, takeOut heap 1)

/-- The first index of an event with the uid. -/
def find (heap : Heap) (uid : Nat) : Option Nat :=
  (heap.tail.findIdx? fun e => e.key.uid = uid).map (· + 1)

def remove (heap : Heap) (ev : Event) : Heap :=
  match find heap ev.key.uid with
  | none => heap
  | some id => takeOut heap id

inductive HeapEvent where
  | insert (ev : Event)
  | peekNext
  | removeNext
  | remove (ev : Event)

def step (heap : Heap) : HeapEvent → Option (Heap × List Event)
  | .insert ev => some (insert heap ev, [])
  | .peekNext => do return (heap, [← peekNext heap])
  | .removeNext => do
    let (next, heap') ← removeNext heap
    return (heap', [next])
  | .remove ev => some (remove heap ev, [])

/-! ## The events that are stored -/

/-- The event that comes first. -/
def first : List Event → Option Event
  | [] => none
  | e :: rest =>
    match first rest with
    | none => some e
    | some e' => if e'.key.Lt e.key then some e' else some e

/-- What a queue of events with different uids does. -/
def queueStep (stored : List Event) : HeapEvent → Option (List Event × List Event)
  | .insert ev => if ev.key.uid ∈ stored.map (·.key.uid) then none else some (ev :: stored, [])
  | .peekNext => do return (stored, [← first stored])
  | .removeNext => do
    let next ← first stored
    return (stored.erase next, [next])
  | .remove ev => if ev ∈ stored then some (stored.erase ev, []) else none

end Ns3.Core.HeapScheduler
