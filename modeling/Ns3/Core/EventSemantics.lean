import Ns3.Core.ListScheduler

/-!
# What a run of the simulator promises
-/

namespace Ns3.Core

namespace Simulation

variable {Q : Type}

/-- What the simulator promises its users. Events with equal times are ordered
by their uids, which is the order of the scheduling calls. -/
structure Promises (sched : Scheduler Q) (s : Simulation Q) : Prop where
  on_time : ∀ r ∈ s.invoked, r.1 ∈ s.issued ∧ r.2 = r.1.key.ts
  in_order : s.invoked.Pairwise fun a b => a.1.key.Lt b.1.key
  issued_in_order : s.issued.Pairwise fun a b => a.key.uid < b.key.uid
  never_withdrawn : ∀ id, s.Started id → id ∉ s.withdrawn
  /-- An event waits for its turn until it runs or is withdrawn. -/
  kept : ∀ e ∈ s.issued, e.id ∉ s.withdrawn → ¬ s.Started e.id →
    e ∈ sched.contents s.sim.events ∧ s.sim.current.Lt e.key
  pending : ∀ e ∈ sched.contents s.sim.events, e ∈ s.issued ∧ ¬ s.Started e.id
  pending_once : (sched.contents s.sim.events).Nodup
  /-- The least event that was not withdrawn is the next to run. -/
  turn : ∀ e ∈ sched.contents s.sim.events, e.id ∉ s.withdrawn →
    (∀ e' ∈ sched.contents s.sim.events, ¬ e'.key.Lt e.key) →
    s.phase = .looping → s.sim.stop = false →
    ∃ s', s.step sched .processOne = some s' ∧ s'.invoked = s.invoked ++ [(e, e.key.ts)]
  destroy_once : s.invokedDestroy.Nodup ∧ ∀ id ∈ s.invokedDestroy, ∃ e ∈ s.issuedDestroy, e.id = id
  destroy_kept : ∀ e ∈ s.issuedDestroy, e.id ∉ s.withdrawn → ¬ s.Started e.id →
    e.id ∈ s.sim.destroyEvents
  /-- Nothing that another thread gave is lost. -/
  received : s.impls.Perm (s.issued.map Event.impl ++ (s.issuedDestroy.map Event.impl ++
    s.sim.eventsWithContext.map EventWithContext.impl))
  forward : ∀ e s', s.Few e → s.Orderly sched e → s.step sched e = some s' →
    s.sim.currentTs ≤ s'.sim.currentTs
  unscheduled : s.sim.unscheduledEvents = (sched.contents s.sim.events).length
  expired : ∀ e, e ∈ s.issued ∨ e ∈ s.issuedDestroy →
    (s.sim.isExpired e.id = true ↔ s.Started e.id ∨ e.id ∈ s.withdrawn)

variable {sched : Scheduler Q} {s : Simulation Q}

theorem Inv.create : (create sched).Inv sched := by
  have empty := sched.contents_empty
  constructor
  case scheduled =>
    constructor
    case held => simp [Simulation.create, DefaultSimulatorImpl.create, empty]
    case held_once => simp [Simulation.create, DefaultSimulatorImpl.create, empty]
    case count => simp [Simulation.create, DefaultSimulatorImpl.create, empty]
    case count_small => simp [Simulation.create, DefaultSimulatorImpl.create, empty]
    all_goals simp [Simulation.create, DefaultSimulatorImpl.create]
  case atDestroy => constructor <;> simp [Simulation.create, DefaultSimulatorImpl.create]
  case ownImpls => constructor <;> simp [Simulation.create, DefaultSimulatorImpl.create]
  case known => exact fun id mem => absurd mem List.not_mem_nil

theorem Inv.takes_least (inv : s.Inv sched) {e : Event}
    (held : e ∈ sched.contents s.sim.events) (valid : e.id ∉ s.withdrawn)
    (least : ∀ e' ∈ sched.contents s.sim.events, ¬ e'.key.Lt e.key)
    (looping : s.phase = .looping) (running : s.sim.stop = false) :
    ∃ s', s.step sched .processOne = some s' ∧ s'.invoked = s.invoked ++ [(e, e.key.ts)] := by
  obtain ⟨next, events, perm, first, eq⟩ := processOne_eq looping running (List.ne_nil_of_mem held)
  obtain ⟨issued, -, later, -⟩ := inv.scheduled.next_between perm first
  have same : next = e := by
    rcases List.mem_cons.1 (perm.mem_iff.1 held) with same | left
    · exact same.symm
    · exact absurd (later e left) (least next (perm.mem_iff.2 List.mem_cons_self))
  subst same
  have unflagged := mt (inv.scheduled.flags next issued).1 valid
  rw [if_neg unflagged] at eq
  exact ⟨_, eq, rfl⟩

theorem Inv.promises (inv : s.Inv sched) : s.Promises sched := by
  have scheduled := inv.scheduled
  have atDestroy := inv.atDestroy
  constructor
  case on_time =>
    intro r ran
    obtain ⟨issued, ts, -, -⟩ := scheduled.ran r ran
    exact ⟨issued, ts⟩
  case in_order => exact scheduled.ran_order
  case issued_in_order => exact scheduled.order
  case never_withdrawn =>
    rintro id (⟨r, ran, rfl⟩ | ran)
    · exact (scheduled.ran r ran).2.2.2
    · exact (atDestroy.ran id ran).2
  case kept =>
    intro e issued valid unstarted
    rcases scheduled.kept e issued with held | ran | withdrawn
    · exact ⟨held, (scheduled.held e held).2⟩
    · exact absurd ((scheduled.started_iff atDestroy issued).2 ran) unstarted
    · exact absurd withdrawn valid
  case pending =>
    intro e held
    obtain ⟨issued, later⟩ := scheduled.held e held
    refine ⟨issued, ?_⟩
    intro started
    obtain ⟨r, ran, rfl⟩ := (scheduled.started_iff atDestroy issued).1 started
    exact (scheduled.ran r ran).2.2.1 later
  case pending_once => exact scheduled.held_once
  case turn => exact fun e held valid least => inv.takes_least held valid least
  case destroy_once => exact ⟨atDestroy.ran_once, fun id ran => (atDestroy.ran id ran).1⟩
  case destroy_kept =>
    intro e issued valid unstarted
    rcases atDestroy.kept e issued with held | ran | withdrawn
    · exact held
    · exact absurd (.inr ran) unstarted
    · exact absurd withdrawn valid
  case received => exact inv.ownImpls.whose
  case forward => exact fun e s' few orderly here => (inv.step few orderly here).2
  case unscheduled => exact scheduled.count
  case expired => exact fun e issued => inv.expired_iff issued

/-- **Event semantics.** In a run that schedules nothing before the current time,
every event runs once, at its time and in order, unless it is withdrawn first. -/
theorem event_semantics (sched : Scheduler Q) {s : Simulation Q}
    (reaches : Machine.Reaches (Simulation.step sched)
      (fun s e => s.Few e ∧ s.Orderly sched e) (· = create sched) s) : s.Promises sched := by
  have inv : s.Inv sched := by
    refine reaches.invariant (Inv sched) ?_ ?_
    · rintro s rfl
      exact .create
    · intro s e s' inv allowed here
      exact (inv.step allowed.1 allowed.2 here).1
  exact inv.promises

/-! ## Two runs with a list scheduler -/

section Runs

open ListScheduler

/-- The simulator after some events. -/
def runList (events : List SimEvent) : Option (Simulation ListScheduler) :=
  Machine.runAllowed (step scheduler) Few (create scheduler) events

theorem reaches_runList {events : List SimEvent} {s : Simulation ListScheduler}
    (run : runList events = some s) :
    Machine.Reaches (step scheduler) Few (· = create scheduler) s :=
  .of_runAllowed (.start rfl) run

/-- The event at 10 schedules another one for five steps before. -/
def backwards : List SimEvent :=
  [.call (.scheduleWithContext 1 10 0), .run, .processOne, .call (.scheduleWithContext 1 (-5) 1),
    .back]

/-- The second event runs at 5, after the one at 10, and was expired before it ran. -/
theorem time_goes_back : ∃ s s', Machine.Reaches (step scheduler) Few (· = create scheduler) s ∧
      step scheduler s .processOne = some s' ∧ s'.sim.currentTs < s.sim.currentTs ∧
      ∃ e ∈ s.issued, s.sim.isExpired e.id = true ∧ ¬ s.Started e.id ∧ e.id ∉ s.withdrawn := by
  have check : ((runList backwards).any fun s =>
      (step scheduler s .processOne).any fun s' => decide (s'.sim.currentTs < s.sim.currentTs ∧
        ∃ e ∈ s.issued, s.sim.isExpired e.id = true ∧ ¬ s.Started e.id ∧
          e.id ∉ s.withdrawn)) = true := by
    decide
  rw [Option.any_eq_true] at check
  obtain ⟨s, run, check⟩ := check
  rw [Option.any_eq_true] at check
  obtain ⟨s', next, check⟩ := check
  exact ⟨s, s', reaches_runList run, next, of_decide_eq_true check⟩

/-- One event schedules another, cancels a third and hands over to the next. -/
def forwards : List SimEvent :=
  [.call (.schedule 10 0), .call (.schedule 20 1), .run, .processOne, .call (.scheduleNow 2),
    .call (.cancel ⟨some 1, 20, 0xffffffff, 5⟩), .fromThread 3 7 4, .back, .processOne, .back,
    .processOne]

/-- The three events that are not cancelled run, at 10, 10 and 17. -/
theorem forwards_run : ∃ s : Simulation ListScheduler,
    s.invoked.map Prod.snd = [10, 10, 17] ∧ Machine.runAllowed (step scheduler)
      (fun s e => s.Few e ∧ s.Orderly scheduler e) (create scheduler) forwards = some s := by
  have check : ((Machine.runAllowed (step scheduler)
      (fun s e => s.Few e ∧ s.Orderly scheduler e) (create scheduler) forwards).any fun s =>
        decide (s.invoked.map Prod.snd = [10, 10, 17])) = true := by
    decide
  rw [Option.any_eq_true] at check
  obtain ⟨s, run, check⟩ := check
  exact ⟨s, of_decide_eq_true check, run⟩

theorem forwards_promises : ∃ s : Simulation ListScheduler,
      s.invoked.map Prod.snd = [10, 10, 17] ∧ s.Promises scheduler := by
  obtain ⟨s, times, run⟩ := forwards_run
  exact ⟨s, times, event_semantics scheduler (.of_runAllowed (.start rfl) run)⟩

end Runs

end Simulation

end Ns3.Core
