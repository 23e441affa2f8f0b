import Mathlib.Data.List.Basic

/-!
# Peek and dequeue of queue discs

What `QueueDisc` does for every discipline: a packet that was peeked is held
until it is dequeued. Times are in nanoseconds.
-/

namespace Ns3.TrafficControl

/-- An item is a pointer, `id`. -/
structure QueueDiscItem where
  id : Nat
  size : Nat
  timeStamp : Int
  /-- The `IP_DSFIELD`, if there is one. -/
  tosByte : Option Nat := none
  /-- What `Mark` returns. -/
  mark : Bool := false
  deriving DecidableEq

/-- What a subclass does. The trace of a dequeued packet is muted when the first argument of
`doDequeue`, the `m_peeked`, is true. -/
structure Discipline (S : Type) where
  doDequeue : Bool → Int → S → Option QueueDiscItem × S
  packetDequeued : QueueDiscItem → S → S

structure QueueDisc (S : Type) where
  state : S
  requeued : Option QueueDiscItem := none
  peeked : Bool := false

namespace QueueDisc

variable {S : Type} (d : Discipline S) (now : Int)

def dequeue (q : QueueDisc S) : Option QueueDiscItem × QueueDisc S :=
  match q.requeued with
  | some item =>
    if q.peeked then (some item, ⟨d.packetDequeued item q.state, none, false⟩)
    else (some item, { q with requeued := none })
  | none =>
    let (item, state) := d.doDequeue q.peeked now q.state
    (item, { q with state })

/-- The default `DoPeek`. -/
def doPeek (q : QueueDisc S) : Option QueueDiscItem × QueueDisc S :=
  match q.requeued with
  | some item => (some item, q)
  | none =>
    let (item, q') := dequeue d now { q with peeked := true }
    (item, { q' with requeued := item, peeked := item.isSome })

end QueueDisc

/-- A packet that `peek` shows is the next one that `dequeue` returns. -/
def Predicts {C : Type} (peek dequeue : C → Option QueueDiscItem × C) (child : C) : Prop :=
  ∀ item, (peek child).1 = some item → (dequeue (peek child).2).1 = some item

theorem doPeek_predicts {S : Type} (d : Discipline S) (now : Int) (q : QueueDisc S) :
    Predicts (QueueDisc.doPeek d now) (QueueDisc.dequeue d now) q := by
  intro item shown
  unfold QueueDisc.doPeek at shown ⊢
  cases held : q.requeued with
  | some other =>
    rw [held] at shown
    cases shown
    simp only [QueueDisc.dequeue, held]
    split <;> rfl
  | none =>
    rw [held] at shown
    dsimp only at shown ⊢
    rw [shown]
    rfl

end Ns3.TrafficControl

/-!
## Trees of queue discs

The base class `QueueDisc` over its internal queues and the queue discs of its
classes. What a subclass does in `DoEnqueue`, `DoDequeue` and `DoPeek` is a
plan, which is given with each call. A trace that is fired during a call of a
child is heard when the call returns; the callbacks change only the parent.
Marks, the reasons of drops and sojourn times are left out.
-/

namespace Ns3.TrafficControl.Tree

/-- An item with what is read of it for its transmission. -/
structure TxItem extends QueueDiscItem where
  txQueueIndex : Nat := 0
  /-- The calls of `AddHeader`. They do not change `GetSize`. -/
  headers : Nat := 0
  deriving DecidableEq

def TxItem.addHeader (item : TxItem) : TxItem := { item with headers := item.headers + 1 }

/-! ## The base class -/

structure Counter where
  packets : UInt32 := 0
  bytes : UInt64 := 0
  deriving DecidableEq

namespace Counter

def add (c : Counter) (item : TxItem) : Counter :=
  ⟨c.packets + 1, c.bytes + UInt64.ofNat item.size⟩

def sub (c d : Counter) : Counter := ⟨c.packets - d.packets, c.bytes - d.bytes⟩

end Counter

structure Stats where
  nTotalReceived : Counter := {}
  nTotalSent : Counter := {}
  nTotalEnqueued : Counter := {}
  nTotalDequeued : Counter := {}
  nTotalDropped : Counter := {}
  nTotalDroppedBeforeEnqueue : Counter := {}
  nTotalDroppedAfterDequeue : Counter := {}
  nTotalRequeued : Counter := {}

structure Base where
  nPackets : UInt32 := 0
  nBytes : UInt32 := 0
  stats : Stats := {}
  requeued : Option TxItem := none
  peeked : Bool := false

/-- A trace that is fired. -/
inductive Trace where
  | enqueue (item : TxItem)
  | dequeue (item : TxItem)
  | dropBeforeEnqueue (item : TxItem)
  | dropAfterDequeue (item : TxItem)

namespace Base

variable (item : TxItem) (b : Base)

def packetEnqueued : Base × List Trace :=
  ({ b with
    nPackets := b.nPackets + 1
    nBytes := b.nBytes + UInt32.ofNat item.size
    stats := { b.stats with nTotalEnqueued := b.stats.nTotalEnqueued.add item } },
    [.enqueue item])

def packetDequeued : Base × List Trace :=
  if b.peeked then (b, [])
  else ({ b with
    nPackets := b.nPackets - 1
    nBytes := b.nBytes - UInt32.ofNat item.size
    stats := { b.stats with nTotalDequeued := b.stats.nTotalDequeued.add item } },
    [.dequeue item])

def dropBeforeEnqueue : Base × List Trace :=
  ({ b with stats := { b.stats with
    nTotalDropped := b.stats.nTotalDropped.add item
    nTotalDroppedBeforeEnqueue := b.stats.nTotalDroppedBeforeEnqueue.add item } },
    [.dropBeforeEnqueue item])

def dropAfterDequeue : Base × List Trace :=
  let b := { b with stats := { b.stats with
    nTotalDropped := b.stats.nTotalDropped.add item
    nTotalDroppedAfterDequeue := b.stats.nTotalDroppedAfterDequeue.add item } }
  if b.peeked then
    -- the peek muted the trace of the packet
    let (b, traces) := packetDequeued item { b with peeked := false }
    ({ b with peeked := true }, traces ++ [.dropAfterDequeue item])
  else (b, [.dropAfterDequeue item])

/-- The callback of a trace of an internal queue or a child. -/
def hear : Trace → Base × List Trace
  | .enqueue item => b.packetEnqueued item
  | .dequeue item => b.packetDequeued item
  | .dropBeforeEnqueue item => b.dropBeforeEnqueue item
  | .dropAfterDequeue item => b.dropAfterDequeue item

def hearAll (b : Base) : List Trace → Base × List Trace
  | [] => (b, [])
  | trace :: traces =>
    let (b, first) := b.hear trace
    let (b, rest) := b.hearAll traces
    (b, first ++ rest)

end Base

/-! ## Discs and their plans -/

/-- What a parent calls of its children, and the plans of the calls. -/
structure Disc where
  State : Type
  EnqueuePlan : Type
  DequeuePlan : Type
  PeekPlan : Type
  enqueue : EnqueuePlan → TxItem → State → State × List Trace
  dequeue : DequeuePlan → State → Option TxItem × State × List Trace
  peek : PeekPlan → State → Option TxItem × State × List Trace
  /-- `GetInternalQueue(i)->Dequeue()` -/
  dequeueQueue : Nat → State → Option TxItem × State × List Trace

variable (d : Disc)

/-- Where a packet is taken from. -/
inductive Source where
  | queue (i : Nat)
  | child (i : Nat) (plan : d.DequeuePlan)

/-- What a disc does beside the packet that it is given or asked for. -/
inductive Action where
  /-- A packet is dequeued and dropped. -/
  | drop (source : Source d)
  /-- A packet is dequeued from an internal queue of a child and dropped. -/
  | dropInner (i queue : Nat)
  | peek (i : Nat) (plan : d.PeekPlan)

/-- What becomes of a packet that is enqueued. An internal queue that is full drops it. -/
inductive Target where
  | queue (i : Nat) (full : Bool)
  | child (i : Nat) (plan : d.EnqueuePlan)
  | drop

structure NodeEnqueue where
  before : List (Action d) := []
  target : Target d
  after : List (Action d) := []

structure NodeDequeue where
  actions : List (Action d) := []
  source : Option (Source d)

inductive Look where
  | queue (i : Nat)
  | child (i : Nat) (plan : d.PeekPlan)

/-- The default `DoPeek`, or one that asks the internal queues or the children in an order. -/
inductive NodePeek where
  | hold (plan : NodeDequeue d)
  | looks (looks : List (Look d))

/-- A queue disc over its internal queues, each with its head first, and its children. -/
structure Node (C : Type) where
  base : Base := {}
  queues : List (List TxItem)
  children : List C

namespace Node

variable {d}

/-- Dequeue from an internal queue or a child. There is no packet where there is no place. -/
def take (n : Node d.State) : Source d → Option TxItem × Node d.State × List Trace
  | .queue i =>
    match n.queues[i]? with
    | some (item :: rest) =>
      let (base, traces) := n.base.packetDequeued item
      (some item, { n with base, queues := n.queues.set i rest }, traces)
    | _ => (none, n, [])
  | .child i plan =>
    match n.children[i]? with
    | some child =>
      let (item, child, fired) := d.dequeue plan child
      let (base, traces) := n.base.hearAll fired
      (item, { n with base, children := n.children.set i child }, traces)
    | none => (none, n, [])

/-- `DropAfterDequeue` of a packet, if there is one. -/
def dropTaken : Option TxItem × Node d.State × List Trace → Node d.State × List Trace
  | (some item, n, traces) =>
    let (base, dropped) := n.base.dropAfterDequeue item
    ({ n with base }, traces ++ dropped)
  | (none, n, traces) => (n, traces)

def act (n : Node d.State) : Action d → Node d.State × List Trace
  | .drop source => dropTaken (n.take source)
  | .dropInner i queue =>
    match n.children[i]? with
    | some child =>
      let (item, child, fired) := d.dequeueQueue queue child
      let (base, traces) := n.base.hearAll fired
      dropTaken (item, { n with base, children := n.children.set i child }, traces)
    | none => (n, [])
  | .peek i plan =>
    match n.children[i]? with
    | some child =>
      let (_, child, fired) := d.peek plan child
      let (base, traces) := n.base.hearAll fired
      ({ n with base, children := n.children.set i child }, traces)
    | none => (n, [])

def actAll (n : Node d.State) : List (Action d) → Node d.State × List Trace
  | [] => (n, [])
  | action :: actions =>
    let (n, first) := n.act action
    let (n, rest) := n.actAll actions
    (n, first ++ rest)

/-- The packet goes to its target. Where there is no such place it is dropped. -/
def put (item : TxItem) (n : Node d.State) : Target d → Node d.State × List Trace
  | .queue i full =>
    match n.queues[i]?, full with
    | some queue, false =>
      let (base, traces) := n.base.packetEnqueued item
      ({ n with base, queues := n.queues.set i (queue ++ [item]) }, traces)
    | _, _ =>
      let (base, traces) := n.base.dropBeforeEnqueue item
      ({ n with base }, traces)
  | .child i plan =>
    match n.children[i]? with
    | some child =>
      let (child, fired) := d.enqueue plan item child
      let (base, traces) := n.base.hearAll fired
      ({ n with base, children := n.children.set i child }, traces)
    | none =>
      let (base, traces) := n.base.dropBeforeEnqueue item
      ({ n with base }, traces)
  | .drop =>
    let (base, traces) := n.base.dropBeforeEnqueue item
    ({ n with base }, traces)

def doEnqueue (plan : NodeEnqueue d) (item : TxItem) (n : Node d.State) :
    Node d.State × List Trace :=
  let (n, first) := n.actAll plan.before
  let (n, traces) := n.put item plan.target
  let (n, rest) := n.actAll plan.after
  (n, first ++ traces ++ rest)

def enqueue (plan : NodeEnqueue d) (item : TxItem) (n : Node d.State) :
    Node d.State × List Trace :=
  doEnqueue plan item { n with base := { n.base with stats :=
    { n.base.stats with nTotalReceived := n.base.stats.nTotalReceived.add item } } }

def doDequeue (plan : NodeDequeue d) (n : Node d.State) :
    Option TxItem × Node d.State × List Trace :=
  let (n, first) := n.actAll plan.actions
  match plan.source with
  | some source =>
    let (item, n, traces) := n.take source
    (item, n, first ++ traces)
  | none => (none, n, first)

def dequeue (plan : NodeDequeue d) (n : Node d.State) :
    Option TxItem × Node d.State × List Trace :=
  match n.base.requeued with
  | some item =>
    let base := { n.base with requeued := none }
    if base.peeked then
      let (base, traces) := Base.packetDequeued item { base with peeked := false }
      (some item, { n with base }, traces)
    else (some item, { n with base }, [])
  | none => n.doDequeue plan

/-- The default `DoPeek`. -/
def doPeek (plan : NodeDequeue d) (n : Node d.State) :
    Option TxItem × Node d.State × List Trace :=
  match n.base.requeued with
  | some item => (some item, n, [])
  | none =>
    let (item, n, traces) := dequeue plan { n with base := { n.base with peeked := true } }
    (item, { n with base := { n.base with requeued := item, peeked := item.isSome } }, traces)

/-- The first packet that is found. -/
def lookAll (n : Node d.State) : List (Look d) → Option TxItem × Node d.State × List Trace
  | [] => (none, n, [])
  | .queue i :: looks =>
    match n.queues[i]? with
    | some (item :: _) => (some item, n, [])
    | _ => n.lookAll looks
  | .child i plan :: looks =>
    match n.children[i]? with
    | some child =>
      let (item, child, fired) := d.peek plan child
      let (base, traces) := n.base.hearAll fired
      let n := { n with base, children := n.children.set i child }
      match item with
      | some item => (some item, n, traces)
      | none =>
        let (item, n, rest) := n.lookAll looks
        (item, n, traces ++ rest)
    | none => n.lookAll looks

def peek (n : Node d.State) : NodePeek d → Option TxItem × Node d.State × List Trace
  | .hold plan => n.doPeek plan
  | .looks looks => n.lookAll looks

/-- A disc that holds a packet is left alone: the discs that drop from the queue of a child do
not peek it. -/
def dequeueQueue (i : Nat) (n : Node d.State) : Option TxItem × Node d.State × List Trace :=
  if n.base.peeked then (none, n, []) else n.take (.queue i)

end Node

/-- The discs with children. -/
def Disc.node (d : Disc) : Disc where
  State := Node d.State
  EnqueuePlan := NodeEnqueue d
  DequeuePlan := NodeDequeue d
  PeekPlan := NodePeek d
  enqueue := Node.enqueue
  dequeue := Node.dequeue
  peek plan n := n.peek plan
  dequeueQueue := Node.dequeueQueue

/-- No disc. -/
def Disc.empty : Disc where
  State := Empty
  EnqueuePlan := Empty
  DequeuePlan := Empty
  PeekPlan := Empty
  enqueue plan := nomatch plan
  dequeue plan := nomatch plan
  peek plan := nomatch plan
  dequeueQueue _ s := nomatch s

/-- The trees of queue discs up to a height. -/
def Disc.tree : Nat → Disc
  | 0 => .empty
  | height + 1 => (tree height).node

end Ns3.TrafficControl.Tree
