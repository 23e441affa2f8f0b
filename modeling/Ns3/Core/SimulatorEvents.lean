import Ns3.Core.SimulatorSteps
import Ns3.Library.Machine

/-!
# The events of a run

While no event is scheduled before the current time, every event runs when it
is due, once and in order, and `IsExpired` tells the events that are still to
come from the others.
-/

namespace Ns3.Core

open Option DefaultSimulatorImpl

/-- The `EventImpl` that a scheduling call brings. -/
def SimEvent.given : SimEvent → Option Nat
  | .call (.schedule _ impl) => some impl
  | .call (.scheduleNow impl) => some impl
  | .call (.scheduleWithContext _ _ impl) => some impl
  | .call (.scheduleDestroy impl) => some impl
  | .fromThread _ _ impl => some impl
  | _ => none

namespace Simulation

variable {Q : Type}

/-- There are fewer than `2 ^ 32 - 4` scheduling calls. -/
def Few (s : Simulation Q) (e : SimEvent) : Prop :=
  ∀ impl, e.given = some impl → s.impls.length + 1 < 2 ^ 32 - 4

/-- No event is scheduled before the current time, or after the last one that a
`Time` holds. -/
def Timely (sched : Scheduler Q) (s : Simulation Q) : SimEvent → Prop
  | .call (.schedule delay _) => 0 ≤ delay ∧ s.sim.currentTs + delay < 2 ^ 63
  | .call (.scheduleWithContext _ delay _) => 0 ≤ delay ∧ s.sim.currentTs + delay < 2 ^ 63
  | .run => ∀ w ∈ s.sim.eventsWithContext, s.sim.currentTs + w.timestamp < 2 ^ 63
  | .back => ∀ w ∈ s.sim.eventsWithContext, s.sim.currentTs + w.timestamp < 2 ^ 63
  | .processOne => ∀ e ∈ sched.contents s.sim.events,
    (∀ e' ∈ sched.contents s.sim.events, ¬ e'.key.Lt e.key) →
    ∀ w ∈ s.sim.eventsWithContext, e.key.ts + w.timestamp < 2 ^ 63
  | _ => True

structure Orderly (sched : Scheduler Q) (s : Simulation Q) (e : SimEvent) : Prop where
  timely : s.Timely sched e
  /-- No `EventImpl` is scheduled twice. -/
  fresh : ∀ impl, e.given = some impl → impl ∉ s.impls
  /-- `m_unscheduledEvents` is an `int`. -/
  room : ∀ impl, e.given = some impl → e ≠ .call (.scheduleDestroy impl) →
    (sched.contents s.sim.events).length + s.sim.eventsWithContext.length + 1 < 2 ^ 31

instance (s : Simulation Q) (e : SimEvent) : Decidable (s.Few e) :=
  inferInstanceAs (Decidable (∀ impl ∈ e.given, _))

instance (sched : Scheduler Q) (s : Simulation Q) (e : SimEvent) : Decidable (s.Timely sched e) :=
  match e with
  | .call (.schedule _ _) | .call (.scheduleWithContext _ _ _) =>
    inferInstanceAs (Decidable (_ ∧ _))
  | .run | .back => inferInstanceAs (Decidable (∀ w ∈ s.sim.eventsWithContext, _))
  | .processOne => inferInstanceAs (Decidable (∀ e ∈ sched.contents s.sim.events, _))
  | .call (.scheduleNow _) | .call (.scheduleDestroy _) | .call (.cancel _) | .call (.remove _)
  | .call .stop | .fromThread _ _ _ | .leave | .destroy | .destroyNext | .destroyEnd =>
    isTrue trivial

instance (sched : Scheduler Q) (s : Simulation Q) (e : SimEvent) : Decidable (s.Orderly sched e) :=
  decidable_of_iff (s.Timely sched e ∧ (∀ impl ∈ e.given, impl ∉ s.impls) ∧
      ∀ impl ∈ e.given, e ≠ .call (.scheduleDestroy impl) →
        (sched.contents s.sim.events).length + s.sim.eventsWithContext.length + 1 < 2 ^ 31)
    ⟨fun ⟨timely, fresh, room⟩ => ⟨timely, fresh, room⟩,
      fun ⟨timely, fresh, room⟩ => ⟨timely, fresh, room⟩⟩

variable {sched : Scheduler Q} {s s' : Simulation Q}

theorem takeNext_eq {next : Event} {events : Q}
    (taken : sched.removeNext s.sim.events = some (next, events)) :
    s.sim.takeNext sched = some ((s.taken next events).sim, next) := by
  rw [takeNext, taken]
  rfl

theorem insertAll_frame (waiting : List EventWithContext) (sim : DefaultSimulatorImpl Q) :
    (insertAll sched waiting sim).1.currentTs = sim.currentTs := by
  induction waiting generalizing sim with
  | nil => rfl
  | cons w rest ih => exact ih _

theorem drain_currentTs (phase : Phase) : (s.drain sched phase).sim.currentTs = s.sim.currentTs :=
  insertAll_frame s.sim.eventsWithContext _

theorem remove_currentTs (id : EventId) : (s.sim.remove sched id).currentTs = s.sim.currentTs := by
  unfold remove
  split
  · rfl
  · split
    · rfl
    case isFalse =>
      split
      · rfl
      · unfold setCancel
        split <;> rfl

theorem cancel_currentTs (id : EventId) : (s.sim.cancel id).currentTs = s.sim.currentTs := by
  unfold cancel setCancel
  split
  · rfl
  · split <;> rfl

theorem Inv.call (inv : s.Inv sched) {c : Call} (few : s.Few (.call c))
    (orderly : s.Orderly sched (.call c)) (here : s.call sched c = some s') :
    s'.Inv sched ∧ s'.sim.currentTs = s.sim.currentTs := by
  have calls := inv.ownImpls.calls
  have now_small := inv.scheduled.times.1
  have insert_at : ∀ (delay : Int) (impl context : Nat), SimEvent.given (.call c) = some impl →
      (∀ i, SimEvent.call c ≠ .call (.scheduleDestroy i)) → 0 ≤ delay →
      s.sim.currentTs + delay < 2 ^ 63 →
      (s.record (s.sim.insert sched impl (toUint64 (delay + s.sim.currentTs)) context)).Inv
        sched := by
    intro delay impl context given not_destroy low high
    have ts_eq : (toUint64 (delay + s.sim.currentTs) : Int) = delay + s.sim.currentTs :=
      toUint64_eq (by omega) (by omega)
    have few_calls := few impl given
    have room := orderly.room impl given (not_destroy impl)
    exact inv.scheduled_call context (by omega) (by omega) (orderly.fresh impl given) (by omega)
      (by omega)
  cases c with
  | schedule delay impl =>
    cases here
    exact ⟨insert_at delay impl _ rfl nofun orderly.timely.1 orderly.timely.2, rfl⟩
  | scheduleNow impl =>
    cases here
    exact ⟨insert_at 0 impl _ rfl nofun (Int.le_refl 0) (by omega), rfl⟩
  | scheduleWithContext context delay impl =>
    cases here
    exact ⟨insert_at delay impl context rfl nofun orderly.timely.1 orderly.timely.2, rfl⟩
  | scheduleDestroy impl =>
    cases here
    exact ⟨inv.schedule_destroy (orderly.fresh impl rfl) (few impl rfl), rfl⟩
  | cancel id =>
    simp only [Simulation.call, ite_none_right_eq_some, Option.some.injEq] at here
    obtain ⟨known, rfl⟩ := here
    exact ⟨inv.cancel known, cancel_currentTs id⟩
  | remove id =>
    simp only [Simulation.call, ite_none_right_eq_some, Option.some.injEq] at here
    obtain ⟨known, rfl⟩ := here
    exact ⟨inv.remove known, remove_currentTs id⟩
  | stop =>
    cases here
    exact ⟨inv.at_phase s.phase true, rfl⟩

theorem processOne_eq (looping : s.phase = .looping) (running : s.sim.stop = false)
    (pending : sched.contents s.sim.events ≠ []) :
    ∃ next events, (sched.contents s.sim.events).Perm (next :: sched.contents events) ∧
      (∀ e ∈ sched.contents events, ¬ e.key.Lt next.key) ∧
      s.step sched .processOne = some
        (if s.sim.cancelled next.impl then (s.taken next events).drain sched .looping
        else { s.taken next events with
          phase := .inEvent, invoked := s.invoked ++ [(next, next.key.ts)] }) := by
  obtain ⟨next, events, taken, perm, least⟩ := sched.removeNext_least s.sim.events pending
  have not_empty := mt (sched.isEmpty_iff s.sim.events).1 pending
  refine ⟨next, events, perm, least, ?_⟩
  rw [step, if_pos ⟨looping, not_empty, by simp [running]⟩, takeNext_eq taken]
  exact (apply_ite some (s.sim.cancelled next.impl = true) _ _).symm

theorem Inv.process_one (inv : s.Inv sched) (timely : s.Timely sched .processOne)
    (here : s.step sched .processOne = some s') :
    s'.Inv sched ∧ s.sim.currentTs ≤ s'.sim.currentTs := by
  by_cases enabled : s.phase = .looping ∧ ¬ sched.isEmpty s.sim.events ∧ ¬ s.sim.stop
  case neg =>
    rw [step, if_neg enabled] at here
    cases here
  obtain ⟨looping, not_empty, running⟩ := enabled
  have pending := mt (sched.isEmpty_iff s.sim.events).2 not_empty
  obtain ⟨next, events, perm, least, eq⟩ :=
    processOne_eq looping (Bool.not_eq_true _ ▸ running) pending
  obtain ⟨-, later, -, -⟩ := inv.scheduled.next_between perm least
  have time : s.sim.currentTs ≤ next.key.ts := by
    simp only [EventKey.Lt, current] at later
    omega
  rw [eq] at here
  cases here
  split
  case isTrue cancelled =>
    have skipped := inv.skipped perm least cancelled
    constructor
    · refine skipped.drain .looping ?_
      refine timely next (perm.mem_iff.2 List.mem_cons_self) ?_
      intro e mem
      rcases List.mem_cons.1 (perm.mem_iff.1 mem) with rfl | mem
      · exact EventKey.lt_irrefl _
      · exact least e mem
    · rw [drain_currentTs]
      exact time
  case isFalse valid =>
    constructor
    · exact (inv.invoked perm least valid).at_phase .inEvent _
    · exact time

theorem Inv.step (inv : s.Inv sched) {e : SimEvent} (few : s.Few e) (orderly : s.Orderly sched e)
    (here : s.step sched e = some s') : s'.Inv sched ∧ s.sim.currentTs ≤ s'.sim.currentTs := by
  cases e with
  | call c =>
    simp only [Simulation.step, ite_none_left_eq_some] at here
    obtain ⟨next, same⟩ := inv.call few orderly here.2
    exact ⟨next, Nat.le_of_eq same.symm⟩
  | fromThread context delay impl =>
    cases here
    have room := orderly.room impl rfl nofun
    have next := inv.from_thread context delay (orderly.fresh impl rfl) (few impl rfl) room
    exact ⟨next, Nat.le_refl _⟩
  | run =>
    simp only [Simulation.step, ite_none_right_eq_some, Option.some.injEq] at here
    obtain ⟨-, rfl⟩ := here
    constructor
    · exact (inv.drain .looping orderly.timely).at_phase .looping false
    · exact Nat.le_of_eq (drain_currentTs .looping).symm
  | processOne => exact inv.process_one orderly.timely here
  | back =>
    simp only [Simulation.step] at here
    split at here
    · cases here
      exact ⟨inv.drain .looping orderly.timely, Nat.le_of_eq (drain_currentTs .looping).symm⟩
    · cases here
      exact ⟨inv.at_phase .destroying _, Nat.le_refl _⟩
    · cases here
  | leave =>
    simp only [Simulation.step, ite_none_right_eq_some, Option.some.injEq] at here
    obtain ⟨-, rfl⟩ := here
    exact ⟨inv.at_phase .idle _, Nat.le_refl _⟩
  | destroy =>
    simp only [Simulation.step, ite_none_right_eq_some, Option.some.injEq] at here
    obtain ⟨-, rfl⟩ := here
    exact ⟨inv.at_phase .destroying _, Nat.le_refl _⟩
  | destroyNext =>
    simp only [Simulation.step, ite_none_right_eq_some] at here
    obtain ⟨-, here⟩ := here
    split at here
    · cases here
    case h_2 id rest held =>
      split at here
      case isTrue cancelled =>
        cases here
        exact ⟨inv.destroy_next held (.inl ⟨cancelled, rfl⟩), Nat.le_refl _⟩
      case isFalse valid =>
        cases here
        have next := inv.destroy_next held (.inr ⟨valid, rfl⟩)
        exact ⟨next.at_phase .inDestroyEvent _, Nat.le_refl _⟩
  | destroyEnd =>
    simp only [Simulation.step, ite_none_right_eq_some, Option.some.injEq] at here
    obtain ⟨-, rfl⟩ := here
    exact ⟨inv.at_phase .idle _, Nat.le_refl _⟩

end Simulation

end Ns3.Core
