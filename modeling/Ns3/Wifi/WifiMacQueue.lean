import Mathlib
import Ns3.Wifi.WifiMacQueueContainer

/-!
# `WifiMacQueue`

The MAC queue of an access category in packet mode, with the `FcfsWifiQueueScheduler`. An
iterator is the `id` of the MPDU that it points to, or `none` for the end of a container queue.
-/

namespace Ns3.Wifi.MacQueue

/-- `Time::Max()` -/
def timeMax : Time := 2 ^ 63 - 1

structure WifiMacQueue where
  queues : WifiContainerQueueId → ContainerQueue
  /-- The container queues in the order of their map. -/
  ids : List WifiContainerQueueId
  expiredQueue : ContainerQueue
  nBytesPerQueue : WifiContainerQueueId → UInt32
  nPackets : UInt32
  /-- In packets. -/
  maxSize : UInt32

/-! ## Positions -/

/-- The elements before a position. -/
def before (pos : Option Nat) (queue : ContainerQueue) : ContainerQueue :=
  queue.takeWhile fun e => some e.mpdu.id ≠ pos

/-- The elements from a position on. -/
def onward (pos : Option Nat) (queue : ContainerQueue) : ContainerQueue :=
  queue.dropWhile fun e => some e.mpdu.id ≠ pos

/-- The iterator is valid for the list. -/
def pointsInto (pos : Option Nat) (queue : ContainerQueue) : Bool :=
  pos.isNone || queue.any fun e => some e.mpdu.id = pos

def headPos (queue : ContainerQueue) : Option Nat := queue.head?.map (·.mpdu.id)

/-- `std::next` -/
def nextPos (pos : Option Nat) (queue : ContainerQueue) : Option Nat :=
  headPos (onward pos queue).tail

namespace WifiMacQueue

variable (now : Time) (w : WifiMacQueue)

/-- A null size is ignored. One below the number of packets, an abort, is not set here. -/
def setMaxSize (size : UInt32) : WifiMacQueue :=
  if size = 0 then w else { w with maxSize := size }

/-! ## The container -/

def subBytes (nBytes : WifiContainerQueueId → UInt32) (e : WifiMacQueueElem) :
    WifiContainerQueueId → UInt32 :=
  Function.update nBytes e.mpdu.getQueueId (nBytes e.mpdu.getQueueId - .ofNat e.mpdu.size)

/-- `ExtractExpiredMpdus` of one container queue. The scheduler is notified, which has it look
into the same queue again. -/
def extractExpiredMpdus (queueId : WifiContainerQueueId) : WifiMacQueue :=
  let (kept, extracted) := doExtractExpiredMpdus now (w.queues queueId)
  { w with
    queues := Function.update w.queues queueId kept
    expiredQueue := w.expiredQueue ++ extracted
    nBytesPerQueue := extracted.foldl subBytes w.nBytesPerQueue }

def extractAllExpiredMpdus : WifiMacQueue :=
  w.ids.foldl (fun w queueId => w.extractExpiredMpdus now queueId) w

/-- `Queue::DoRemove` of the first MPDU with expired lifetime. -/
def removeExpired : WifiMacQueue :=
  match w.expiredQueue with
  | [] => w
  | _ :: rest =>
    if w.nPackets = 0 then w else { w with expiredQueue := rest, nPackets := w.nPackets - 1 }

/-- The removal of all of them does not come to `WifiMacQueue::DoRemove`. -/
def wipeAllExpiredMpdus : WifiMacQueue :=
  let w := w.extractAllExpiredMpdus now
  w.expiredQueue.foldl (fun w _ => w.removeExpired) w

/-- `GetNBytes` -/
def getNBytes (queueId : WifiContainerQueueId) : UInt32 :=
  if (w.queues queueId).isEmpty then 0 else w.nBytesPerQueue queueId

/-- `erase` of a queued element, in `Queue::DoDequeue` and `Queue::DoRemove`. -/
def erase (e : WifiMacQueueElem) : WifiMacQueue :=
  let queueId := e.mpdu.getQueueId
  { w with
    queues := Function.update w.queues queueId
      ((w.queues queueId).filter fun x => x.mpdu.id ≠ e.mpdu.id)
    nBytesPerQueue := subBytes w.nBytesPerQueue e
    nPackets := w.nPackets - 1 }

/-- A queued MPDU leaves; a control frame gives back its room. -/
def takeOut (e : WifiMacQueueElem) : WifiMacQueue :=
  let w := w.erase e
  if e.mpdu.isCtl then w.setMaxSize (w.maxSize - 1) else w

/-- `DoRemove` of a queued MPDU. The scheduler that is notified looks into its queue. -/
def doRemove (e : WifiMacQueueElem) : WifiMacQueue :=
  if w.nPackets = 0 then w else (w.takeOut e).extractExpiredMpdus now e.mpdu.getQueueId

/-- `DoDequeue` of queued MPDUs. -/
def doDequeue (es : List WifiMacQueueElem) : WifiMacQueue :=
  let w := es.foldl (fun w e => if w.nPackets = 0 then w else w.takeOut e) w
  es.foldl (fun w e => w.extractExpiredMpdus now e.mpdu.getQueueId) w

/-! ## The scheduler -/

inductive DropPolicy
  | dropNewest
  | dropOldest
  deriving DecidableEq

/-- What is to be dropped before the enqueue of an MPDU. -/
inductive Choice
  | nothing
  | given
  | queued (e : WifiMacQueueElem)
  deriving DecidableEq

/-- Neither in flight nor to be retransmitted. -/
def isDroppable (e : WifiMacQueueElem) : Bool := !e.isInFlight && !e.mpdu.isRetry

/-- The loop over the sorted queues. `PeekByQueueId` extracts expired MPDUs at the first call for
a queue. -/
def chooseQueued : List WifiContainerQueueId → WifiMacQueue → Choice × WifiMacQueue
  | [], w => (.given, w)
  | queueId :: rest, w =>
    if queueId.type = .mgtQueue ∨ queueId.type = .ctlQueue then chooseQueued rest w
    else
      let w := w.extractExpiredMpdus now queueId
      match (w.queues queueId).find? isDroppable with
      | some e => (.queued e, w)
      | none => chooseQueued rest w

/-- The scheduler's drop policy, and the order in which it has the queues. -/
structure Scheduler where
  dropPolicy : DropPolicy
  sortedQueues : List WifiContainerQueueId

def hasToDropBeforeEnqueue (scheduler : Scheduler) (mpdu : WifiMpdu) : Choice × WifiMacQueue :=
  if w.nPackets < w.maxSize then (.nothing, w)
  else if scheduler.dropPolicy = .dropOldest ∨ mpdu.isCtl ∨ mpdu.isMgt then
    chooseQueued now scheduler.sortedQueues w
  else (.given, w)

/-! ## Insertion -/

variable (scheduler : Scheduler) (maxDelay : Time)

/-- The element of a new MPDU. -/
def newElem (item : WifiMpdu) : WifiMacQueueElem :=
  ⟨item, if item.isCtl then timeMax else now + maxDelay, []⟩

/-- `insert` of the container, with the counts. It fails if the iterator is not one into the
container queue. -/
def emplace (pos : Option Nat) (e : WifiMacQueueElem) : Option WifiMacQueue :=
  let queueId := e.mpdu.getQueueId
  let queue := w.queues queueId
  if pointsInto pos queue then
    some { w with
      queues := Function.update w.queues queueId (before pos queue ++ e :: onward pos queue)
      ids := if queueId ∈ w.ids then w.ids else w.ids ++ [queueId]
      nBytesPerQueue := Function.update w.nBytesPerQueue queueId
        (w.nBytesPerQueue queueId + .ofNat e.mpdu.size)
      nPackets := w.nPackets + 1 }
  else none

/-- The scheduler that is notified of an enqueue looks at the head of the queue, which is there. -/
def notifyEnqueue (queueId : WifiContainerQueueId) : Option WifiMacQueue :=
  let w := w.extractExpiredMpdus now queueId
  if (w.queues queueId).isEmpty then none else some w

/-- `Queue::DoEnqueue`, and what follows it in `DoEnqueue`. -/
def enqueueAt (currSize : UInt32) (pos : Option Nat) (item : WifiMpdu) :
    Option (Bool × WifiMacQueue) := do
  if w.maxSize < w.nPackets + 1 then return (false, w.setMaxSize currSize)
  let w ← w.emplace pos (newElem now maxDelay item)
  let w ← w.notifyEnqueue now item.getQueueId
  return (true, w)

/-- A control frame does not consume room. -/
def enlarge (item : WifiMpdu) : WifiMacQueue :=
  if item.isCtl then w.setMaxSize (w.maxSize + 1) else w

/-- `DoEnqueue`; `none` is the use of an iterator that is not valid, or an abort. -/
def doEnqueue (pos : Option Nat) (item : WifiMpdu) : Option (Bool × WifiMacQueue) :=
  let currSize := w.maxSize
  match (w.enlarge item).hasToDropBeforeEnqueue now scheduler item with
  | (.given, w) => some (false, w.setMaxSize currSize)
  | (.nothing, w) => w.enqueueAt now maxDelay currSize pos item
  | (.queued e, w) =>
    let queue := w.queues item.getQueueId
    if pointsInto pos queue then
      let here := e.mpdu.getQueueId = item.getQueueId ∧ pos = some e.mpdu.id
      let pos := if here then nextPos pos queue else pos
      (w.doRemove now e).enqueueAt now maxDelay currSize pos item
    else none

/-- `Insert` of an MPDU before a position of its container queue. -/
def insert (pos : Option Nat) (item : WifiMpdu) : Option (Bool × WifiMacQueue) :=
  if w.nPackets < w.maxSize then w.doEnqueue now scheduler maxDelay pos item
  else
    let queue := w.queues item.getQueueId
    -- the element at the position is stale: the new item will be enqueued at the front
    let stale := queue.any fun e => some e.mpdu.id = pos && e.isExpired now
    let pos := if stale then headPos queue else pos
    (w.wipeAllExpiredMpdus now).doEnqueue now scheduler maxDelay pos item

end WifiMacQueue

end Ns3.Wifi.MacQueue
