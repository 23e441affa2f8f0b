import Mathlib
import Ns3.TrafficControl.QueueDiscTree

/-!
# The root queue disc and its device

`Run` and what it calls. The device may stop or wake its queues whenever a
packet is sent; a wake calls `Run`, which returns at once while the disc is
running. `none` is a queue of the device that there is not.
-/

namespace Ns3.TrafficControl.Tree

variable (d : Disc)

structure Root where
  node : Node d.State
  /-- `m_devQueueIface`: whether each transmission queue is stopped. -/
  device : Option (List Bool)
  quota : Nat
  /-- What was enqueued, the traces that were fired, what was handed to `m_send`, and what was
  returned to a caller of `Dequeue`. -/
  received : List TxItem := []
  traced : List Trace := []
  sent : List TxItem := []
  taken : List TxItem := []

/-- The plan of a dequeue, and the transmission queues after the packet was sent. -/
structure Round where
  plan : NodeDequeue d
  stopped : List Bool

namespace Root

variable {d} (r : Root d)

/-- `IsStopped` of the queue of an item. Without flow control no queue is stopped. -/
def isStopped (i : Nat) : Option Bool :=
  match r.device with
  | none => some false
  | some stopped => stopped[i]?

def getStats : Stats × Root d :=
  let held : Counter := r.node.base.requeued.elim {} fun item => ({} : Counter).add item
  let stats := r.node.base.stats
  let stats := { stats with nTotalSent :=
    (stats.nTotalDequeued.sub held).sub stats.nTotalDroppedAfterDequeue }
  (stats, { r with node := { r.node with base := { r.node.base with stats } } })

def enqueue (plan : NodeEnqueue d) (item : TxItem) : Root d :=
  let (node, traces) := r.node.enqueue plan item
  { r with node, received := r.received ++ [item], traced := r.traced ++ traces }

def dequeue (plan : NodeDequeue d) : Option TxItem × Root d :=
  let (item, node, traces) := r.node.dequeue plan
  (item, { r with node, traced := r.traced ++ traces })

def peek (plan : NodePeek d) : Option TxItem × Root d :=
  let (item, node, traces) := r.node.peek plan
  (item, { r with node, traced := r.traced ++ traces })

def dequeuePacket (plan : NodeDequeue d) : Option (Option TxItem × Root d) := do
  match r.node.base.requeued with
  | some item =>
    -- the requeued or peeked packet leaves as a `Dequeue` gives it, when its queue is not stopped
    if ← r.isStopped item.txQueueIndex then return (none, r)
    else return r.dequeue plan
  | none =>
    let multiQueue := match r.device with
      | none => true
      | some stopped => 1 < stopped.length
    if multiQueue || !(← r.isStopped 0) then
      let (item, r) := r.dequeue plan
      return (item.map TxItem.addHeader, r)
    else return (none, r)

def requeue (item : TxItem) : Root d :=
  let base := r.node.base
  let stats := { base.stats with nTotalRequeued := base.stats.nTotalRequeued.add item }
  { r with node := { r.node with base := { base with requeued := some item, stats } } }

/-- `Transmit`: whether to go on, with the transmission queues after the packet was sent. -/
def transmit (item : TxItem) (stopped : List Bool) : Option (Bool × Root d) := do
  if ← r.isStopped item.txQueueIndex then return (false, r.requeue item)
  else
    let r := { r with sent := r.sent ++ [item], device := r.device.map fun _ => stopped }
    if r.node.base.nPackets = 0 then return (false, r)
    else return (!(← r.isStopped item.txQueueIndex), r)

def restart (round : Round d) : Option (Bool × Root d) := do
  let (item, r) ← r.dequeuePacket round.plan
  match item with
  | none => return (false, r)
  | some item => r.transmit item round.stopped

/-- The loop of `Run`, from the round `i`. -/
def restartAll (rounds : Nat → Round d) : (quota i : Nat) → Root d → Option (Root d)
  | 0, _, r => some r
  | quota + 1, i, r => do
    let (more, r) ← r.restart (rounds i)
    if more then restartAll rounds quota (i + 1) r else return r

/-- `Run`. A quota of zero wraps around. -/
def run (rounds : Nat → Round d) : Option (Root d) :=
  restartAll rounds (if r.quota = 0 then 2 ^ 32 else r.quota) 0 r

end Root

inductive Event where
  | enqueue (plan : NodeEnqueue d) (item : TxItem)
  | dequeue (plan : NodeDequeue d)
  | peek (plan : NodePeek d)
  | run (rounds : Nat → Round d)
  | getStats
  /-- The device stops and wakes its queues. -/
  | device (stopped : List Bool)

variable {d}

def Root.step (r : Root d) : Event d → Option (Root d)
  | .enqueue plan item => some (r.enqueue plan item)
  | .dequeue plan =>
    let (item, r) := r.dequeue plan
    some { r with taken := r.taken ++ item.toList }
  | .peek plan => some (r.peek plan).2
  | .run rounds => r.run rounds
  | .getStats => some r.getStats.2
  | .device stopped => some { r with device := r.device.map fun _ => stopped }

end Ns3.TrafficControl.Tree
