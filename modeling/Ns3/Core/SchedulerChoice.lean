import Ns3.Core.EventSemantics
import Ns3.Core.HeapQueue

/-!
# The choice of the scheduler

A program cannot tell which scheduler the simulator has.
-/

namespace Ns3.Core

open List DefaultSimulatorImpl

/-- The vector is known up to the order of its elements. -/
def priorityQueueScheduler : Scheduler (List Event) where
  empty := []
  insert := cons
  isEmpty := List.isEmpty
  removeNext l := (HeapScheduler.first l).map fun next => (next, l.erase next)
  remove := ListScheduler.listRemove
  contents := id
  contents_empty := rfl
  contents_insert _ _ := .refl _
  isEmpty_iff _ := List.isEmpty_iff
  removeNext_least l nonempty := by
    obtain ⟨-, none⟩ | ⟨next, found, member, before⟩ := HeapScheduler.first_spec l
    · exact absurd none nonempty
    · exact ⟨next, l.erase next, by rw [found]; rfl, perm_cons_erase member,
        fun e mem => before e (mem_of_mem_erase mem)⟩
  contents_remove _ _ := ListScheduler.listRemove_perm

namespace Simulation

variable {Q R : Type} {sched : Scheduler Q} {other : Scheduler R} {s s' : Simulation Q}
  {t : Simulation R} {q : R} {e : SimEvent}

/-- The simulations have the same events, and all else is equal. -/
def Alike (sched : Scheduler Q) (other : Scheduler R) (s : Simulation Q) (t : Simulation R) :
    Prop :=
  ∃ q, (sched.contents s.sim.events).Perm (other.contents q) ∧
    t = { s with sim := { s.sim with events := q } }

theorem insert_perm {events : Q} (perm : (sched.contents events).Perm (other.contents q))
    (ev : Event) :
    (sched.contents (sched.insert ev events)).Perm (other.contents (other.insert ev q)) :=
  (sched.contents_insert _ _).trans ((perm.cons _).trans (other.contents_insert _ _).symm)

theorem insertAll_alike (waiting : List EventWithContext) (sim : DefaultSimulatorImpl Q)
    (perm : (sched.contents sim.events).Perm (other.contents q)) :
    ∃ q', (sched.contents (insertAll sched waiting sim).1.events).Perm (other.contents q') ∧
      insertAll other waiting { sim with events := q } =
        ({ (insertAll sched waiting sim).1 with events := q' },
          (insertAll sched waiting sim).2) := by
  induction waiting generalizing sim q with
  | nil => exact ⟨q, perm, rfl⟩
  | cons w rest ih =>
    obtain ⟨q', perm', same⟩ := ih (sim.insert sched w.impl
      (toUint64 (sim.currentTs + w.timestamp)) w.context).1 (insert_perm perm _)
    exact ⟨q', perm', congrArg (fun all => (all.1, _ :: all.2)) same⟩

section Alike

variable (alike : Alike sched other s t)
include alike

theorem Alike.record (impl ts context : Nat) :
    Alike sched other (s.record (s.sim.insert sched impl ts context))
      (t.record (t.sim.insert other impl ts context)) := by
  obtain ⟨q, perm, rfl⟩ := alike
  exact ⟨_, insert_perm perm _, rfl⟩

theorem Alike.drain (phase : Phase) :
    Alike sched other (s.drain sched phase) (t.drain other phase) := by
  obtain ⟨q, perm, rfl⟩ := alike
  obtain ⟨q', perm', same⟩ :=
    insertAll_alike s.sim.eventsWithContext { s.sim with eventsWithContext := [] } perm
  exact ⟨q', perm', congrArg (fun all => { s with
    sim := all.1, phase, issued := s.issued ++ all.2 }) same⟩

variable (inv : s.Inv sched)
include inv

/-- No two events have one uid, so the least one is the same. -/
theorem Alike.process_one (done : s.step sched .processOne = some s') :
    ∃ t', t.step other .processOne = some t' ∧ Alike sched other s' t' := by
  obtain ⟨q, perm, rfl⟩ := alike
  obtain ⟨⟨looping, not_empty, running⟩, -⟩ := Option.ite_none_right_eq_some.mp done
  have pending := mt (sched.isEmpty_iff s.sim.events).2 not_empty
  have running := Bool.not_eq_true _ ▸ running
  obtain ⟨next, events, split, least, eq⟩ := processOne_eq looping running pending
  obtain ⟨next', events', split', least', eq'⟩ :=
    @processOne_eq R other { s with sim := { s.sim with events := q } } looping running
      fun empty => pending (perm.trans (.of_eq empty)).eq_nil
  obtain ⟨-, -, later, -⟩ := inv.scheduled.next_between split least
  have both := split.symm.trans (perm.trans split')
  obtain rfl : next' = next := by
    rcases mem_cons.mp (both.symm.mem_iff.mp mem_cons_self) with same | left
    · exact same
    · rcases mem_cons.mp (both.mem_iff.mp mem_cons_self) with same | left'
      · exact same.symm
      · exact absurd (later next' left) (least' next left')
  cases eq.symm.trans done
  refine ⟨_, eq', ?_⟩
  have taken : Alike sched other (s.taken next' events) _ := ⟨_, both.cons_inv, rfl⟩
  dsimp only
  split
  · exact taken.drain .looping
  · exact ⟨_, both.cons_inv, rfl⟩

theorem Alike.remove {id : EventId} (known : s.Known id) :
    Alike sched other (s.withdraw id (s.sim.remove sched id))
      (t.withdraw id (t.sim.remove other id)) := by
  obtain ⟨q, perm, rfl⟩ := alike
  unfold DefaultSimulatorImpl.remove
  by_cases destroy : id.uid = 2
  · rw [if_pos destroy, if_pos destroy]
    exact ⟨q, perm, rfl⟩
  rw [if_neg destroy, if_neg destroy]
  by_cases expired : s.sim.isExpired id = true
  · rw [if_pos expired, if_pos (by exact expired)]
    exact ⟨q, perm, rfl⟩
  rw [if_neg expired, if_neg (by exact expired)]
  obtain ⟨e, rfl, -, -, held, once⟩ := inv.removable known destroy expired
  have once' := (perm.map fun e => e.key.uid).nodup_iff.mp once
  exact ⟨_, ((sched.contents_remove e _ held once).symm.trans
    (perm.trans (other.contents_remove e q (perm.mem_iff.mp held) once'))).cons_inv, rfl⟩

theorem Alike.call {c : Call} (done : s.call sched c = some s') :
    ∃ t', t.call other c = some t' ∧ Alike sched other s' t' := by
  obtain ⟨q, perm, rfl⟩ := id alike
  cases c with
  | schedule | scheduleNow | scheduleWithContext =>
    cases done
    exact ⟨_, rfl, alike.record ..⟩
  | scheduleDestroy | stop =>
    cases done
    exact ⟨_, rfl, q, perm, rfl⟩
  | cancel id =>
    obtain ⟨known, done⟩ := Option.ite_none_right_eq_some.mp done
    cases done
    refine ⟨_, if_pos known, q, ?_⟩
    unfold cancel setCancel
    by_cases expired : s.sim.isExpired id = true
    · rw [if_pos expired, if_pos (by exact expired)]
      exact ⟨perm, rfl⟩
    · rw [if_neg expired, if_neg (by exact expired)]
      cases id.impl <;> exact ⟨perm, rfl⟩
  | remove id =>
    obtain ⟨known, done⟩ := Option.ite_none_right_eq_some.mp done
    cases done
    exact ⟨_, if_pos known, alike.remove inv known⟩

theorem Alike.step (done : s.step sched e = some s') :
    ∃ t', t.step other e = some t' ∧ Alike sched other s' t' := by
  obtain ⟨q, perm, rfl⟩ := id alike
  cases e with
  | call c =>
    obtain ⟨free, done⟩ := Option.ite_none_left_eq_some.mp done
    obtain ⟨t', called, alike⟩ := alike.call inv done
    exact ⟨t', Option.ite_none_left_eq_some.mpr ⟨free, called⟩, alike⟩
  | fromThread context delay impl =>
    cases done
    exact ⟨_, rfl, q, perm, rfl⟩
  | run =>
    obtain ⟨idle, done⟩ := Option.ite_none_right_eq_some.mp done
    cases done
    obtain ⟨q', perm', drained⟩ := alike.drain .looping
    refine ⟨_, if_pos idle, ?_⟩
    rw [drained]
    exact ⟨q', perm', rfl⟩
  | processOne => exact alike.process_one inv done
  | back =>
    unfold Simulation.step at done ⊢
    dsimp only at done ⊢
    cases at_ : s.phase <;> rw [at_] at done <;> cases done
    · exact ⟨_, rfl, alike.drain .looping⟩
    · exact ⟨_, rfl, q, perm, rfl⟩
  | leave =>
    obtain ⟨free, done⟩ := Option.ite_none_right_eq_some.mp done
    cases done
    have empty : other.isEmpty q = sched.isEmpty s.sim.events := by
      rw [Bool.eq_iff_iff, other.isEmpty_iff, sched.isEmpty_iff]
      exact ⟨fun none => (none ▸ perm).eq_nil, fun none => (none ▸ perm.symm).eq_nil⟩
    exact ⟨_, if_pos (empty ▸ free), q, perm, rfl⟩
  | destroy | destroyEnd =>
    obtain ⟨free, done⟩ := Option.ite_none_right_eq_some.mp done
    cases done
    exact ⟨_, if_pos free, q, perm, rfl⟩
  | destroyNext =>
    obtain ⟨free, done⟩ := Option.ite_none_right_eq_some.mp done
    cases list : s.sim.destroyEvents with
    | nil =>
      rw [list] at done
      cases done
    | cons id rest =>
      rw [list] at done
      dsimp only at done
      split at done <;> cases done
      all_goals
        refine ⟨_, (if_pos free).trans ?_, q, perm, rfl⟩
        dsimp only
        rw [list]
        first | exact if_pos ‹_› | exact if_neg ‹_›

end Alike

/-- **The scheduler is not observed**: over another one the same program has the same history. -/
theorem scheduler_unobserved (sched : Scheduler Q) (other : Scheduler R) {events : List SimEvent}
    (run : Machine.runAllowed (Simulation.step sched) (fun s e => s.Few e ∧ s.Orderly sched e)
      (create sched) events = some s) :
    ∃ q, (sched.contents s.sim.events).Perm (other.contents q) ∧
      events.foldlM (Simulation.step other) (create other) =
        some { s with sim := { s.sim with events := q } } := by
  have first : Alike sched other (create sched) (create other) :=
    ⟨_, .of_eq (sched.contents_empty.trans other.contents_empty.symm), rfl⟩
  have inv : (create sched).Inv sched := .create
  generalize create sched = s₀ at run first inv
  generalize create other = t₀ at first ⊢
  induction events generalizing s₀ t₀ with
  | nil =>
    cases run
    obtain ⟨q, perm, rfl⟩ := first
    exact ⟨q, perm, rfl⟩
  | cons e events ih =>
    rw [Machine.runAllowed, Option.ite_none_right_eq_some, Option.bind_eq_some_iff] at run
    obtain ⟨⟨few, orderly⟩, s₁, here, later⟩ := run
    obtain ⟨t₁, there, alike⟩ := first.step inv here
    rw [foldlM_cons, there]
    exact ih s₁ later (inv.step few orderly here).1 t₁ alike

/-- Events at 10, 10 and 17, and one that is cancelled, over a list and over a heap. -/
theorem forwards_unobserved : ∃ (s : Simulation ListScheduler) (q : List Event),
    s.invoked.map Prod.snd = [10, 10, 17] ∧
      forwards.foldlM (Simulation.step priorityQueueScheduler) (create priorityQueueScheduler) =
        some { s with sim := { s.sim with events := q } } := by
  obtain ⟨s, times, run⟩ := forwards_run
  obtain ⟨q, -, same⟩ := scheduler_unobserved ListScheduler.scheduler priorityQueueScheduler run
  exact ⟨s, q, times, same⟩

end Simulation

end Ns3.Core
