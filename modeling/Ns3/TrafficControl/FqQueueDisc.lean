import Ns3.Library.Machine
import Ns3.TrafficControl.CobaltQueueDisc

/-!
# `FqCoDelQueueDisc`, `FqPieQueueDisc` and `FqCobaltQueueDisc`

The three have the same code over another queue disc for their flows, a FIFO
queue from which packets are taken and dropped. Statistics are left out;
the numbers of stored packets and bytes are counted in the flows. `none` is a
null pointer, or a loop that takes more than the rounds it is given.
-/

namespace Ns3.TrafficControl

/-- The queue disc of a flow: its internal queue, the head first, and what is done to it. -/
structure FlowDisc (S : Type) where
  create : S
  queue : S → List QueueDiscItem
  enqueue : Int → QueueDiscItem → S → S
  dequeue : Int → S → Option QueueDiscItem × S
  /-- `GetInternalQueue(0)->Dequeue()` -/
  dropHead : S → S
  queue_create : queue create = []
  /-- A packet is dropped or goes to the tail, with the time. -/
  queue_enqueue : ∀ now item s, queue (enqueue now item s) = queue s ∨
    queue (enqueue now item s) = queue s ++ [{ item with timeStamp := now }]
  /-- Packets may be dropped before the one that is returned. -/
  queue_dequeue : ∀ now s,
    match (dequeue now s).1 with
    | some item => ∃ dropped, queue s = dropped ++ item :: queue (dequeue now s).2
    | none => queue (dequeue now s).2 = []
  queue_dropHead : ∀ s, queue (dropHead s) = (queue s).tail

/-- The value of an `int32_t`. -/
@[irreducible] def toInt32 (n : Int) : Int := (n + 2 ^ 31) % 2 ^ 32 - 2 ^ 31

inductive FlowStatus where
  | inactive
  | newFlow
  | oldFlow
  deriving DecidableEq

structure FqFlow (S : Type) where
  deficit : Int := 0
  status : FlowStatus := .inactive
  index : Nat := 0
  queueDisc : S

namespace FqFlow

variable {S : Type} (flow : FqFlow S)

def setDeficit (deficit : Nat) : FqFlow S := { flow with deficit := toInt32 deficit }

def increaseDeficit (deficit : Int) : FqFlow S :=
  { flow with deficit := toInt32 (flow.deficit + toInt32 deficit) }

def setStatus (status : FlowStatus) : FqFlow S := { flow with status }

@[simp] theorem setDeficit_queueDisc (deficit : Nat) :
    (flow.setDeficit deficit).queueDisc = flow.queueDisc := by
  cases flow
  rfl

end FqFlow

structure FqQueueDisc (S : Type) where
  /-- The classes in the order they were added. -/
  classes : List (FqFlow S)
  flowsIndices : Nat → Option Nat
  tags : Nat → Option Nat
  /-- The lists hold the places of flows among the classes. -/
  newFlows : List Nat
  oldFlows : List Nat
  quantum : Nat
  maxSize : Nat
  flows : Nat
  dropBatchSize : Nat
  enableSetAssociativeHash : Bool
  setWays : Nat

namespace FqQueueDisc

variable {S : Type} (disc : FlowDisc S) (now : Int) (s : FqQueueDisc S)

/-- `GetNPackets` -/
def nPackets : Nat := (s.classes.map fun flow => (disc.queue flow.queueDisc).length).sum

/-- `GetNBytes` of the queue disc of a flow. -/
def nBytes (queueDisc : S) : Nat := ((disc.queue queueDisc).map (·.size)).sum

/-! ## Enqueue -/

/-- Whether the queue of a set can be used for the flow. -/
def usable (flowHash i : Nat) : Bool :=
  match s.flowsIndices i with
  | none => true
  | some place => s.tags i = some flowHash ||
      s.classes[place]?.any (·.status = .inactive)

/-- `SetAssociativeHash` -/
def setAssociativeHash (flowHash : Nat) : Nat × FqQueueDisc S :=
  let h := flowHash % s.flows
  let outerHash := h - h % s.setWays
  let i := ((List.range' outerHash s.setWays).find? (s.usable flowHash)).getD outerHash
  (i, { s with tags := Function.update s.tags i (some flowHash) })

/-- The place of the flow with an index, which is created when there is none. -/
def flowAt (h : Nat) : Nat × FqQueueDisc S :=
  match s.flowsIndices h with
  | some place => (place, s)
  | none => (s.classes.length, { s with
      classes := s.classes ++ [{ index := h, queueDisc := disc.create }]
      flowsIndices := Function.update s.flowsIndices h (some s.classes.length) })

/-- An inactive flow becomes a new one. -/
def activate (place : Nat) (flow : FqFlow S) : FqQueueDisc S :=
  if flow.status = .inactive then
    { s with
      classes := s.classes.set place ((flow.setStatus .newFlow).setDeficit s.quantum)
      newFlows := s.newFlows ++ [place] }
  else s

/-- `DoEnqueue` up to the child, with the hash of the item or the value of the filters. -/
def enqueueFlow (flowHash : Nat) (item : QueueDiscItem) : Option (FqQueueDisc S) := do
  let (h, s) := if s.enableSetAssociativeHash then s.setAssociativeHash flowHash
    else (flowHash % s.flows, s)
  let (place, s) := s.flowAt disc h
  let flow ← s.classes[place]?
  let s := s.activate place flow
  let flow ← s.classes[place]?
  let queueDisc := disc.enqueue now item flow.queueDisc
  return { s with classes := s.classes.set place { flow with queueDisc } }

/-- The most bytes of a flow and its place. -/
def fatFlow : Nat × Nat :=
  s.classes.zipIdx.foldl (fun (best : Nat × Nat) flow =>
    let bytes := nBytes disc flow.1.queueDisc % 2 ^ 32
    if best.1 < bytes then (bytes, flow.2) else best) (0, 0)

/-- The loop that drops packets of a flow. -/
def dropPackets (dropBatchSize threshold : Nat) :
    (rounds count len : Nat) → (queueDisc : S) → Option S
  | 0, _, _, _ => none
  | rounds + 1, count, len, queueDisc => do
    let item ← (disc.queue queueDisc).head?
    let queueDisc := disc.dropHead queueDisc
    let len := (len + item.size) % 2 ^ 32
    let count := (count + 1) % 2 ^ 32
    if count < dropBatchSize ∧ len < threshold then
      dropPackets dropBatchSize threshold rounds count len queueDisc
    else return queueDisc

/-- `FqCoDelDrop` -/
def fqDrop : Option (FqQueueDisc S) := do
  let (maxBacklog, place) := s.fatFlow disc
  let flow ← s.classes[place]?
  let rounds := (disc.queue flow.queueDisc).length
  let queueDisc ← dropPackets disc s.dropBatchSize (maxBacklog / 2) rounds 0 0 flow.queueDisc
  return { s with classes := s.classes.set place { flow with queueDisc } }

/-- `DoEnqueue`. There is no hash when no filter classifies the packet. -/
def doEnqueue (flowHash : Option Nat) (item : QueueDiscItem) : Option (Bool × FqQueueDisc S) := do
  match flowHash with
  | none => return (false, s)
  | some flowHash =>
    let s ← s.enqueueFlow disc now flowHash item
    if s.maxSize < s.nPackets disc % 2 ^ 32 then
      let s ← s.fqDrop disc
      return (true, s)
    else return (true, s)

/-! ## Dequeue -/

/-- What a round of the loops comes to. -/
inductive Turn (S : Type) where
  | again (s : FqQueueDisc S)
  | done (item : Option QueueDiscItem) (s : FqQueueDisc S)

/-- A flow with a positive deficit was found: the packet of its child, or `empty` when there is
none. -/
def serve (place : Nat) (flow : FqFlow S) (empty : FqFlow S → FqQueueDisc S) : Turn S :=
  let (item, queueDisc) := disc.dequeue now flow.queueDisc
  let flow := { flow with queueDisc }
  match item with
  | none => .again (empty flow)
  | some item => .done (some item)
      { s with classes := s.classes.set place (flow.increaseDeficit (-item.size)) }

/-- One round of the loops of `DoDequeue`: the first flow gets a quantum and goes to the end of
the old flows, or it is served. Old flows are looked at when there are no new ones. -/
def turn : Option (Turn S) := do
  match s.newFlows, s.oldFlows with
  | place :: newFlows, oldFlows =>
    let flow ← s.classes[place]?
    if flow.deficit ≤ 0 then
      return .again { s with
        classes := s.classes.set place ((flow.increaseDeficit s.quantum).setStatus .oldFlow)
        newFlows, oldFlows := oldFlows ++ [place] }
    else
      return s.serve disc now place flow fun flow => { s with
        classes := s.classes.set place (flow.setStatus .oldFlow)
        newFlows, oldFlows := oldFlows ++ [place] }
  | [], place :: oldFlows =>
    let flow ← s.classes[place]?
    if flow.deficit ≤ 0 then
      return .again { s with
        classes := s.classes.set place (flow.increaseDeficit s.quantum)
        oldFlows := oldFlows ++ [place] }
    else
      return s.serve disc now place flow fun flow => { s with
        classes := s.classes.set place (flow.setStatus .inactive), oldFlows }
  | [], [] => return .done none s

/-- `DoDequeue` in a number of rounds. -/
def doDequeue : (rounds : Nat) → FqQueueDisc S → Option (Option QueueDiscItem × FqQueueDisc S)
  | 0, _ => none
  | rounds + 1, s => do
    match ← s.turn disc now with
    | .again s => doDequeue rounds s
    | .done item s => return (item, s)

/-! ## Events -/

inductive Event where
  | enqueue (now : Int) (flowHash : Option Nat) (item : QueueDiscItem)
  /-- A dequeue that takes at most so many rounds. -/
  | dequeue (now : Int) (rounds : Nat)

def step (s : FqQueueDisc S) : Event → Option (FqQueueDisc S)
  | .enqueue now flowHash item => (s.doEnqueue disc now flowHash item).map Prod.snd
  | .dequeue now rounds => (doDequeue disc now rounds s).map Prod.snd

end FqQueueDisc

/-! ## Cobalt as the queue disc of a flow -/

namespace Cobalt

variable {P : Type} (blue : Blue P)

/-- `CobaltQueueFull` -/
def queueFull (now : Int) (s : Cobalt P) : Cobalt P :=
  let s := if now - s.lastUpdateTimeBlue > s.target then
    { s with pDrop := blue.increase s.pDrop, lastUpdateTimeBlue := (now % 2 ^ 32).toNat } else s
  { s with dropping := true, dropNext := now, count := if s.count = 0 then 1 else s.count }

/-- `DoEnqueue`, for a maximum size in packets. -/
def doEnqueue (maxSize : Nat) (now : Int) (item : QueueDiscItem) (s : Cobalt P) : Cobalt P :=
  if maxSize < s.queue.length + 1 then s.queueFull blue now
  else { s with queue := s.queue ++ [{ item with timeStamp := now }] }

variable (now : Int) (s : Cobalt P)

@[simp] theorem invSqrt_queue : s.invSqrt.queue = s.queue := rfl

@[simp] theorem passDue_queue (rounds : Nat) : (passDue now rounds s).queue = s.queue := by
  induction rounds generalizing s with
  | zero => rfl
  | succ rounds ih =>
    unfold passDue
    split
    · rw [ih]
      rfl
    · rfl

@[simp] theorem compareTarget_queue (overTarget : Bool) :
    (s.compareTarget now overTarget).queue = s.queue := by
  unfold compareTarget
  split <;> rfl

@[simp] theorem codelShouldDrop_queue (item : QueueDiscItem) :
    (s.codelShouldDrop now item).2.queue = s.queue := by
  unfold codelShouldDrop
  dsimp only
  split
  · simp only [invSqrt_queue, compareTarget_queue]
  · split
    · simp only [passDue_queue, invSqrt_queue, compareTarget_queue]
    · exact compareTarget_queue now s _

@[simp] theorem updateBlue_queue (sojournTime : Int) :
    (s.updateBlue blue now sojournTime).queue = s.queue := by
  unfold updateBlue
  split <;> rfl

@[simp] theorem blueShouldDrop_queue : (s.blueShouldDrop blue).2.queue = s.queue := by
  unfold blueShouldDrop
  split <;> rfl

@[simp] theorem shouldDrop_queue (item : QueueDiscItem) :
    (s.shouldDrop blue now item).2.queue = s.queue := by
  unfold shouldDrop
  split
  · rfl
  · simp [apply_ite Prod.snd, apply_ite queue]

@[simp] theorem queueEmpty_queue : (s.queueEmpty blue now).queue = s.queue := by
  unfold queueEmpty
  dsimp only
  split <;> split <;> rfl

theorem dequeueFrom_queue (items : List QueueDiscItem) :
    match (dequeueFrom blue now items s).1 with
    | some item => ∃ dropped, items = dropped ++ item :: (dequeueFrom blue now items s).2.queue
    | none => (dequeueFrom blue now items s).2.queue = [] := by
  induction items generalizing s with
  | nil => exact queueEmpty_queue blue now _
  | cons first rest ih =>
    unfold dequeueFrom
    by_cases drop : (shouldDrop blue now { s with queue := rest } first).1 = true
    · have later := ih (shouldDrop blue now { s with queue := rest } first).2
      simp only [if_pos drop]
      cases next : (dequeueFrom blue now rest
          (shouldDrop blue now { s with queue := rest } first).2).1 with
      | none =>
        rw [next] at later
        exact later
      | some item =>
        rw [next] at later
        obtain ⟨dropped, is⟩ := later
        exact ⟨first :: dropped, congrArg (first :: ·) is⟩
    · simp only [if_neg drop]
      exact ⟨[], by rw [shouldDrop_queue]; rfl⟩

theorem queue_doEnqueue (maxSize : Nat) (item : QueueDiscItem) :
    (s.doEnqueue blue maxSize now item).queue = s.queue ∨
      (s.doEnqueue blue maxSize now item).queue = s.queue ++ [{ item with timeStamp := now }] := by
  unfold doEnqueue
  split
  · left
    unfold queueFull
    split <;> rfl
  · right
    rfl

/-- The queue disc of a flow of `FqCobaltQueueDisc`. -/
def flowDisc (maxSize : Nat) (create : Cobalt P) (empty : create.queue = []) :
    FlowDisc (Cobalt P) where
  create
  queue := Cobalt.queue
  enqueue now item s := s.doEnqueue blue maxSize now item
  dequeue now s := dequeueFrom blue now s.queue s
  dropHead s := { s with queue := s.queue.tail }
  queue_create := empty
  queue_enqueue now item s := queue_doEnqueue blue now s maxSize item
  queue_dequeue now s := dequeueFrom_queue blue now s s.queue
  queue_dropHead _ := rfl

end Cobalt

end Ns3.TrafficControl
