import Mathlib
import Ns3.Library.PriorityQueue

/-!
# `DefaultSimulatorImpl`

A failed `NS_ASSERT` goes on, as in an optimized build. What the program does
between its calls is not modelled: it may make any call whenever it has the
control.
-/

namespace Ns3.Core

structure EventKey where
  ts : Nat
  uid : Nat
  context : Nat
  deriving DecidableEq

/-- `operator<` of keys. -/
def EventKey.Lt (a b : EventKey) : Prop := a.ts < b.ts ∨ a.ts = b.ts ∧ a.uid < b.uid

instance (a b : EventKey) : Decidable (a.Lt b) := inferInstanceAs (Decidable (_ ∨ _))

/-- `Scheduler::Event`, with the `EventImpl` it points to. -/
structure Event where
  impl : Nat
  key : EventKey
  deriving DecidableEq

structure EventId where
  impl : Option Nat
  ts : Nat
  context : Nat
  uid : Nat
  deriving DecidableEq

def Event.id (e : Event) : EventId := ⟨some e.impl, e.key.ts, e.key.context, e.key.uid⟩

abbrev Scheduler (Q : Type) :=
  PriorityQueue Q Event Nat (fun a b => a.key.Lt b.key) fun e => e.key.uid

structure EventWithContext where
  context : Nat
  timestamp : Nat
  impl : Nat

/-- The `m_cancel` of each `EventImpl` is here too. -/
structure DefaultSimulatorImpl (Q : Type) where
  destroyEvents : List EventId
  stop : Bool
  events : Q
  uid : Nat
  currentUid : Nat
  currentTs : Nat
  currentContext : Nat
  eventCount : Nat
  unscheduledEvents : Int
  eventsWithContext : List EventWithContext
  cancelled : Nat → Bool

/-- A sum of times as a `uint64_t`. -/
def toUint64 (t : Int) : Nat := (t % 2 ^ 64).toNat

/-- A sum as an `int`. -/
def toInt32 (n : Int) : Int := n.bmod (2 ^ 32)

namespace DefaultSimulatorImpl

variable {Q : Type} (sched : Scheduler Q) (s : DefaultSimulatorImpl Q)

def create : DefaultSimulatorImpl Q where
  destroyEvents := []
  stop := false
  events := sched.empty
  uid := 4
  currentUid := 0
  currentTs := 0
  currentContext := 0xffffffff
  eventCount := 0
  unscheduledEvents := 0
  eventsWithContext := []
  cancelled := fun _ => false

/-- The next `m_uid` for an event that is inserted. -/
def insert (impl ts context : Nat) : DefaultSimulatorImpl Q × Event :=
  let ev : Event := ⟨impl, ⟨ts, s.uid, context⟩⟩
  ({ s with
      uid := (s.uid + 1) % 2 ^ 32
      unscheduledEvents := toInt32 (s.unscheduledEvents + 1)
      events := sched.insert ev s.events }, ev)

def schedule (delay : Int) (impl : Nat) : DefaultSimulatorImpl Q × Event :=
  s.insert sched impl (toUint64 (delay + s.currentTs)) s.currentContext

def scheduleNow (impl : Nat) : DefaultSimulatorImpl Q × Event := s.schedule sched 0 impl

/-- From the main thread. -/
def scheduleWithContext (context : Nat) (delay : Int) (impl : Nat) :
    DefaultSimulatorImpl Q × Event :=
  s.insert sched impl (toUint64 (delay + s.currentTs)) context

/-- `ScheduleWithContext` from another thread. -/
def pushWithContext (context : Nat) (delay : Int) (impl : Nat) : DefaultSimulatorImpl Q :=
  { s with eventsWithContext := s.eventsWithContext ++ [⟨context, toUint64 delay, impl⟩] }

def scheduleDestroy (impl : Nat) : DefaultSimulatorImpl Q × Event :=
  let ev : Event := ⟨impl, ⟨s.currentTs, 2, 0xffffffff⟩⟩
  ({ s with
      destroyEvents := s.destroyEvents ++ [ev.id]
      uid := (s.uid + 1) % 2 ^ 32 }, ev)

def isCancelled (id : EventId) : Bool :=
  match id.impl with
  | none => true
  | some impl => s.cancelled impl

/-- A null `EventImpl` counts as cancelled. -/
def isExpired (id : EventId) : Bool :=
  if id.uid = 2 then s.isCancelled id || !s.destroyEvents.contains id
  else s.isCancelled id || id.ts < s.currentTs || (id.ts = s.currentTs && id.uid ≤ s.currentUid)

/-- `EventImpl::Cancel` -/
def setCancel (id : EventId) : DefaultSimulatorImpl Q :=
  match id.impl with
  | none => s
  | some impl => { s with cancelled := Function.update s.cancelled impl true }

def remove (id : EventId) : DefaultSimulatorImpl Q :=
  if id.uid = 2 then { s with destroyEvents := s.destroyEvents.erase id }
  else if s.isExpired id then s
  else match id.impl with
    | none => s
    | some impl =>
      { s.setCancel id with
        events := sched.remove ⟨impl, ⟨id.ts, id.uid, id.context⟩⟩ s.events
        unscheduledEvents := toInt32 (s.unscheduledEvents - 1) }

def cancel (id : EventId) : DefaultSimulatorImpl Q :=
  if s.isExpired id then s else s.setCancel id

/-- The queue of the other threads' events, one by one. -/
def insertAll : List EventWithContext → DefaultSimulatorImpl Q →
    DefaultSimulatorImpl Q × List Event
  | [], s => (s, [])
  | w :: rest, s =>
    let (s', ev) := s.insert sched w.impl (toUint64 (s.currentTs + w.timestamp)) w.context
    let (s'', evs) := insertAll rest s'
    (s'', ev :: evs)

def processEventsWithContext : DefaultSimulatorImpl Q × List Event :=
  insertAll sched s.eventsWithContext { s with eventsWithContext := [] }

/-- `ProcessOneEvent` up to `Invoke`. -/
def takeNext : Option (DefaultSimulatorImpl Q × Event) := do
  let (next, events) ← sched.removeNext s.events
  return ({ s with
    events
    unscheduledEvents := toInt32 (s.unscheduledEvents - 1)
    eventCount := (s.eventCount + 1) % 2 ^ 64
    currentTs := next.key.ts
    currentContext := next.key.context
    currentUid := next.key.uid }, next)

end DefaultSimulatorImpl

/-! ## A program over the simulator -/

/-- Who has the control. -/
inductive Phase where
  /-- The program, before or after `Run` and `Destroy`. -/
  | idle
  /-- The loop of `Run`. -/
  | looping
  /-- The program, in an event. -/
  | inEvent
  /-- The loop of `Destroy`. -/
  | destroying
  | inDestroyEvent
  deriving DecidableEq

/-- The simulator with its history: the events in scheduling order, the ones
that ran with the time they ran at, and those that were cancelled or removed
before they could. -/
structure Simulation (Q : Type) where
  sim : DefaultSimulatorImpl Q
  phase : Phase
  issued : List Event
  issuedDestroy : List Event
  invoked : List (Event × Nat)
  invokedDestroy : List EventId
  withdrawn : List EventId
  /-- Every `EventImpl` that was given to a scheduling call. -/
  impls : List Nat

inductive Call where
  | schedule (delay : Int) (impl : Nat)
  | scheduleNow (impl : Nat)
  | scheduleWithContext (context : Nat) (delay : Int) (impl : Nat)
  | scheduleDestroy (impl : Nat)
  | cancel (id : EventId)
  | remove (id : EventId)
  | stop
  deriving DecidableEq

inductive SimEvent where
  | call (c : Call)
  | fromThread (context : Nat) (delay : Int) (impl : Nat)
  | run
  | processOne
  /-- The event that runs ends. -/
  | back
  | leave
  | destroy
  | destroyNext
  | destroyEnd
  deriving DecidableEq

namespace Simulation

variable {Q : Type} (sched : Scheduler Q) (s : Simulation Q)

def create : Simulation Q := ⟨.create sched, .idle, [], [], [], [], [], []⟩

/-- The event has started. -/
def Started (id : EventId) : Prop :=
  (∃ r ∈ s.invoked, r.1.id = id) ∨ id ∈ s.invokedDestroy

instance (id : EventId) : Decidable (s.Started id) := inferInstanceAs (Decidable (_ ∨ _))

def record (result : DefaultSimulatorImpl Q × Event) : Simulation Q :=
  { s with sim := result.1, issued := s.issued ++ [result.2], impls := result.2.impl :: s.impls }

def withdraw (id : EventId) (sim : DefaultSimulatorImpl Q) : Simulation Q :=
  { s with sim, withdrawn := if s.Started id then s.withdrawn else id :: s.withdrawn }

/-- The program has the null id and the ids it was given. -/
def Known (id : EventId) : Prop :=
  id.impl = none ∨ (∃ e ∈ s.issued, e.id = id) ∨ ∃ e ∈ s.issuedDestroy, e.id = id

instance (id : EventId) : Decidable (s.Known id) := inferInstanceAs (Decidable (_ ∨ _ ∨ _))

def call : Call → Option (Simulation Q)
  | .schedule delay impl => some (s.record (s.sim.schedule sched delay impl))
  | .scheduleNow impl => some (s.record (s.sim.scheduleNow sched impl))
  | .scheduleWithContext context delay impl =>
    some (s.record (s.sim.scheduleWithContext sched context delay impl))
  | .scheduleDestroy impl =>
    let (sim, ev) := s.sim.scheduleDestroy impl
    some { s with sim, issuedDestroy := s.issuedDestroy ++ [ev], impls := impl :: s.impls }
  | .cancel id => if s.Known id then some (s.withdraw id (s.sim.cancel id)) else none
  | .remove id => if s.Known id then some (s.withdraw id (s.sim.remove sched id)) else none
  | .stop => some { s with sim := { s.sim with stop := true } }

def drain (phase : Phase) : Simulation Q :=
  let (sim, evs) := s.sim.processEventsWithContext sched
  { s with sim, phase, issued := s.issued ++ evs }

/-- `Run` and `Destroy` go on by single events. -/
def step : SimEvent → Option (Simulation Q)
  | .call c =>
    if s.phase = .looping ∨ s.phase = .destroying then none else s.call sched c
  | .fromThread context delay impl =>
    some { s with sim := s.sim.pushWithContext context delay impl, impls := impl :: s.impls }
  | .run =>
    if s.phase = .idle then
      let drained := s.drain sched .looping
      some { drained with sim := { drained.sim with stop := false } }
    else none
  | .processOne =>
    if s.phase = .looping ∧ ¬ sched.isEmpty s.sim.events ∧ ¬ s.sim.stop then do
      let (sim, next) ← s.sim.takeNext sched
      let taken := { s with sim }
      if sim.cancelled next.impl then return taken.drain sched .looping
      else return { taken with
        phase := .inEvent, invoked := s.invoked ++ [(next, sim.currentTs)] }
    else none
  | .back =>
    match s.phase with
    | .inEvent => some (s.drain sched .looping)
    | .inDestroyEvent => some { s with phase := .destroying }
    | _ => none
  | .leave =>
    if s.phase = .looping ∧ (sched.isEmpty s.sim.events ∨ s.sim.stop) then
      some { s with phase := .idle }
    else none
  | .destroy => if s.phase = .idle then some { s with phase := .destroying } else none
  | .destroyNext =>
    if s.phase = .destroying then
      match s.sim.destroyEvents with
      | [] => none
      | id :: rest =>
        let popped := { s with sim := { s.sim with destroyEvents := rest } }
        if s.sim.isCancelled id then some popped
        else some { popped with
          phase := .inDestroyEvent, invokedDestroy := s.invokedDestroy ++ [id] }
    else none
  | .destroyEnd =>
    if s.phase = .destroying ∧ s.sim.destroyEvents = [] then some { s with phase := .idle }
    else none

end Simulation

end Ns3.Core
