import Ns3.Core.SimulatorInvariant

/-!
# Each operation keeps what holds of the simulator

The scheduler hands out the earliest event, so that the current key never goes
back while no event is scheduled before it.
-/

namespace Ns3.Core.Simulation

open List DefaultSimulatorImpl

variable {Q : Type} {sched : Scheduler Q} {s : Simulation Q}

/-! ## Events that leave the scheduler -/

variable {events : Q} {next : Event} {id : EventId}

/-- An event leaves the scheduler, having run or been withdrawn. -/
theorem Scheduled.shrunk (scheduled : s.Scheduled sched) {e : Event}
    (perm : (sched.contents s.sim.events).Perm (e :: sched.contents events))
    {current : EventKey} {invoked : List (Event × Nat)} (count : Nat)
    (old : current.uid < s.sim.uid) (small : current.ts < 2 ^ 63)
    (later : ∀ e' ∈ sched.contents events, current.Lt e'.key)
    (gone : (∃ r ∈ invoked, r.1 = e) ∨ e.id ∈ s.withdrawn)
    (more : ∀ r ∈ s.invoked, r ∈ invoked)
    (ran : ∀ r ∈ invoked, r.1 ∈ s.issued ∧ r.2 = r.1.key.ts ∧ ¬ current.Lt r.1.key ∧
      r.1.id ∉ s.withdrawn)
    (ran_order : invoked.Pairwise fun a b => a.1.key.Lt b.1.key) :
    Simulation.Scheduled sched
      { s with
        sim := { s.sim with
          events
          unscheduledEvents := toInt32 (s.sim.unscheduledEvents - 1)
          eventCount := count
          currentTs := current.ts
          currentContext := current.context
          currentUid := current.uid }
        invoked } := by
  have length_eq := perm.length_eq
  rw [length_cons] at length_eq
  have room := scheduled.count_small
  have distinct := perm.nodup_iff.1 scheduled.held_once
  constructor
  case order => exact scheduled.order
  case uids => exact scheduled.uids
  case uid_small => exact scheduled.uid_small
  case current_old => exact old
  case held =>
    intro e' held
    have before := scheduled.held e' (perm.mem_iff.2 (mem_cons_of_mem _ held))
    exact ⟨before.1, later e' held⟩
  case held_once => exact (nodup_cons.1 distinct).2
  case kept =>
    intro e' issued
    rcases scheduled.kept e' issued with held | ⟨r, before, same⟩ | withdrawn
    · rcases mem_cons.1 (perm.mem_iff.1 held) with rfl | held
      · exact .inr gone
      · exact .inl held
    · exact .inr (.inl ⟨r, more r before, same⟩)
    · exact .inr (.inr withdrawn)
  case ran => exact ran
  case ran_order => exact ran_order
  case flags => exact scheduled.flags
  case count =>
    dsimp only
    rw [scheduled.count, toInt32_eq] <;> omega
  case times => exact ⟨small, scheduled.times.2⟩
  case count_small =>
    dsimp only
    omega

theorem Inv.dropped (inv : s.Inv sched) {e : Event}
    (perm : (sched.contents s.sim.events).Perm (e :: sched.contents events))
    (withdrawn : e.id ∈ s.withdrawn) :
    Simulation.Inv sched
      { s with
        sim := { s.sim with
          events
          unscheduledEvents := toInt32 (s.sim.unscheduledEvents - 1) } } := by
  obtain ⟨scheduled, atDestroy, ownImpls, known⟩ := inv
  have later : ∀ e' ∈ sched.contents events, s.sim.current.Lt e'.key := by
    intro e' held
    exact (scheduled.held e' (perm.mem_iff.2 (mem_cons_of_mem _ held))).2
  constructor
  case scheduled =>
    exact scheduled.shrunk perm s.sim.eventCount scheduled.current_old scheduled.times.1 later
      (.inr withdrawn) (fun r before => before) scheduled.ran scheduled.ran_order
  case atDestroy => exact { atDestroy with }
  case ownImpls => exact { ownImpls with }
  case known => exact known

/-- The state in which the event of `takeNext` is current. -/
def taken (s : Simulation Q) (next : Event) (events : Q) : Simulation Q :=
  { s with
    sim := { s.sim with
      events
      unscheduledEvents := toInt32 (s.sim.unscheduledEvents - 1)
      eventCount := (s.sim.eventCount + 1) % 2 ^ 64
      currentTs := next.key.ts
      currentContext := next.key.context
      currentUid := next.key.uid } }

/-- The next event is after all that ran and before all that are left. -/
theorem Scheduled.next_between (scheduled : s.Scheduled sched)
    (perm : (sched.contents s.sim.events).Perm (next :: sched.contents events))
    (least : ∀ e ∈ sched.contents events, ¬ e.key.Lt next.key) :
    next ∈ s.issued ∧ s.sim.current.Lt next.key ∧
      (∀ e ∈ sched.contents events, next.key.Lt e.key) ∧
      ∀ r ∈ s.invoked, r.1.key.Lt next.key := by
  have held := scheduled.held next (perm.mem_iff.2 mem_cons_self)
  refine ⟨held.1, held.2, ?_, ?_⟩
  · intro e mem
    have issued := (scheduled.held e (perm.mem_iff.2 (mem_cons_of_mem _ mem))).1
    refine EventKey.lt_of_not_lt (least e mem) ?_
    intro same
    have distinct := (nodup_cons.1 (perm.nodup_iff.1 scheduled.held_once)).1
    exact distinct (scheduled.uid_inj held.1 issued same ▸ mem)
  · intro r ran
    have passed := (scheduled.ran r ran).2.2.1
    exact EventKey.Lt.of_not_lt passed held.2

theorem Inv.skipped (inv : s.Inv sched)
    (perm : (sched.contents s.sim.events).Perm (next :: sched.contents events))
    (least : ∀ e ∈ sched.contents events, ¬ e.key.Lt next.key)
    (cancelled : s.sim.cancelled next.impl = true) : (s.taken next events).Inv sched := by
  obtain ⟨scheduled, atDestroy, ownImpls, known⟩ := inv
  obtain ⟨issued, -, later, earlier⟩ := scheduled.next_between perm least
  constructor
  case scheduled =>
    refine scheduled.shrunk perm _ (scheduled.uids next issued).2 (scheduled.times.2 next issued)
      later (.inr ((scheduled.flags next issued).1 cancelled)) (fun r before => before) ?_
      scheduled.ran_order
    intro r ran
    obtain ⟨issued', ts, -, not_withdrawn⟩ := scheduled.ran r ran
    refine ⟨issued', ts, ?_, not_withdrawn⟩
    intro back
    exact EventKey.lt_irrefl _ (back.trans (earlier r ran))
  case atDestroy => exact { atDestroy with }
  case ownImpls => exact { ownImpls with }
  case known => exact known

/-- `ProcessOneEvent` up to the call of `Notify`. -/
theorem Inv.invoked (inv : s.Inv sched)
    (perm : (sched.contents s.sim.events).Perm (next :: sched.contents events))
    (least : ∀ e ∈ sched.contents events, ¬ e.key.Lt next.key)
    (valid : ¬ s.sim.cancelled next.impl = true) :
    Simulation.Inv sched
      { s.taken next events with invoked := s.invoked ++ [(next, next.key.ts)] } := by
  obtain ⟨scheduled, atDestroy, ownImpls, known⟩ := inv
  obtain ⟨issued, -, later, earlier⟩ := scheduled.next_between perm least
  have mem_new : (next, next.key.ts) ∈ s.invoked ++ [(next, next.key.ts)] :=
    mem_append_right _ (mem_singleton_self _)
  constructor
  case scheduled =>
    refine scheduled.shrunk perm _ (scheduled.uids next issued).2 (scheduled.times.2 next issued)
      later (.inl ⟨_, mem_new, rfl⟩)
      (fun r before => mem_append_left _ before) ?_ ?_
    · intro r mem
      rcases mem_append.1 mem with ran | new
      · obtain ⟨issued', ts, -, not_withdrawn⟩ := scheduled.ran r ran
        refine ⟨issued', ts, ?_, not_withdrawn⟩
        intro back
        exact EventKey.lt_irrefl _ (back.trans (earlier r ran))
      · rw [mem_singleton.1 new]
        refine ⟨issued, rfl, EventKey.lt_irrefl _, ?_⟩
        rw [← scheduled.flags next issued]
        exact valid
    · rw [pairwise_append]
      refine ⟨scheduled.ran_order, pairwise_singleton _ _, ?_⟩
      intro r ran new mem
      rw [mem_singleton.1 mem]
      exact earlier r ran
  case atDestroy => exact { atDestroy with }
  case ownImpls => exact { ownImpls with }
  case known =>
    intro id withdrawn
    exact known id withdrawn

/-! ## `Cancel` and `Remove` -/

theorem Known.event (known : s.Known id) (some_impl : id.impl ≠ none) :
    ∃ e, (e ∈ s.issued ∨ e ∈ s.issuedDestroy) ∧ e.id = id := by
  rcases known with none | ⟨e, issued, same⟩ | ⟨e, issued, same⟩
  · exact absurd none some_impl
  · exact ⟨e, .inl issued, same⟩
  · exact ⟨e, .inr issued, same⟩

theorem isExpired_none (sim : DefaultSimulatorImpl Q) (none : id.impl = none) :
    sim.isExpired id = true := by
  have null : sim.isCancelled id = true := by rw [isCancelled, none]
  unfold isExpired
  split <;> simp [null]

section

variable (inv : s.Inv sched)
include inv

theorem Inv.cancel (known : s.Known id) : (s.withdraw id (s.sim.cancel id)).Inv sched := by
  by_cases expired : s.sim.isExpired id = true
  · rw [DefaultSimulatorImpl.cancel, if_pos expired]
    exact inv.withdraw_expired known expired
  · have some_impl : id.impl ≠ none := fun none => expired (isExpired_none s.sim none)
    obtain ⟨e, issued, rfl⟩ := known.event some_impl
    have fresh := mt (inv.expired_iff issued).2 expired
    rw [not_or] at fresh
    rw [cancel, if_neg expired, withdraw, if_neg fresh.1]
    exact inv.flagged issued fresh.1

theorem Inv.remove_destroy (known : s.Known id) (uid : id.uid = 2) :
    (s.withdraw id { s.sim with destroyEvents := s.sim.destroyEvents.erase id }).Inv sched := by
  generalize after : (if s.Started id then s.withdrawn else id :: s.withdrawn) = withdrawn
  have mem_iff : ∀ x, x ∈ withdrawn ↔ x ∈ s.withdrawn ∨ ¬ s.Started id ∧ x = id := by
    intro x
    by_cases started : s.Started id
    · rw [← after, if_pos started]
      simp [started]
    · rw [← after, if_neg started, mem_cons, or_comm]
      simp [started]
  have mem_other : ∀ x, x ≠ id → (x ∈ withdrawn ↔ x ∈ s.withdrawn) := by
    intro x differ
    rw [mem_iff]
    simp [differ]
  have unstarted : ∀ x, s.Started x → x ∉ s.withdrawn → x ∉ withdrawn := by
    intro x started not_withdrawn mem
    rcases (mem_iff x).1 mem with before | ⟨not_started, rfl⟩
    · exact not_withdrawn before
    · exact not_started started
  obtain ⟨scheduled, atDestroy, ownImpls, known_withdrawn⟩ := inv
  rw [withdraw, after]
  constructor
  case scheduled =>
    refine { scheduled with kept := ?_, ran := ?_, flags := ?_ }
    · intro e issued
      rcases scheduled.kept e issued with held | ran | before
      · exact .inl held
      · exact .inr (.inl ran)
      · exact .inr (.inr ((mem_iff e.id).2 (.inl before)))
    · intro r ran
      obtain ⟨issued, ts, passed, not_withdrawn⟩ := scheduled.ran r ran
      exact ⟨issued, ts, passed, unstarted r.1.id (.inl ⟨r, ran, rfl⟩) not_withdrawn⟩
    · intro e issued
      have differ : e.id ≠ id := by
        rintro rfl
        have low := (scheduled.uids e issued).1
        have id_uid : e.id.uid = e.key.uid := rfl
        omega
      rw [mem_other e.id differ]
      exact scheduled.flags e issued
  case atDestroy =>
    refine { atDestroy with once := ?_, held := ?_, kept := ?_, ran := ?_, flags := ?_ }
    · exact atDestroy.once.erase id
    · exact fun x held => atDestroy.held x (mem_of_mem_erase held)
    · intro e issued
      by_cases same : e.id = id
      · by_cases started : s.Started id
        · have ran := (AtDestroy.started_iff scheduled atDestroy issued).1 (same ▸ started)
          exact .inr (.inl ran)
        · exact .inr (.inr ((mem_iff e.id).2 (.inr ⟨started, same⟩)))
      · rcases atDestroy.kept e issued with held | ran | before
        · exact .inl ((mem_erase_of_ne same).2 held)
        · exact .inr (.inl ran)
        · exact .inr (.inr ((mem_iff e.id).2 (.inl before)))
    · intro x ran
      obtain ⟨issued, not_withdrawn⟩ := atDestroy.ran x ran
      exact ⟨issued, unstarted x (.inr ran) not_withdrawn⟩
    · intro e issued held
      obtain ⟨differ, before⟩ := atDestroy.once.mem_erase_iff.1 held
      rw [mem_other e.id differ]
      exact atDestroy.flags e issued before
  case ownImpls => exact { ownImpls with }
  case known =>
    intro x mem
    rcases (mem_iff x).1 mem with before | ⟨-, rfl⟩
    · exact known_withdrawn x before
    · exact known

theorem Inv.removable (known : s.Known id) (uid : id.uid ≠ 2)
    (expired : ¬ s.sim.isExpired id = true) :
    ∃ e, e.id = id ∧ (e ∈ s.issued ∨ e ∈ s.issuedDestroy) ∧ ¬ s.Started e.id ∧
      e ∈ sched.contents s.sim.events ∧
      ((sched.contents s.sim.events).map fun e => e.key.uid).Nodup := by
  have some_impl : id.impl ≠ none := fun none => expired (isExpired_none s.sim none)
  obtain ⟨e, issued, rfl⟩ := known.event some_impl
  have fresh := mt (inv.expired_iff issued).2 expired
  rw [not_or] at fresh
  have issued_now : e ∈ s.issued := by
    rcases issued with now | atEnd
    · exact now
    · exact absurd (inv.atDestroy.uids e atEnd) uid
  refine ⟨e, rfl, issued, fresh.1, ?_, (nodup_map_iff_inj_on inv.scheduled.held_once).2 ?_⟩
  · rcases inv.scheduled.kept e issued_now with held | ran | withdrawn
    · exact held
    · exact absurd ((inv.scheduled.started_iff inv.atDestroy issued_now).2 ran) fresh.1
    · exact absurd withdrawn fresh.2
  · intro a held_a b held_b same
    exact inv.scheduled.uid_inj (inv.scheduled.held a held_a).1 (inv.scheduled.held b held_b).1 same

theorem Inv.remove (known : s.Known id) : (s.withdraw id (s.sim.remove sched id)).Inv sched := by
  by_cases uid : id.uid = 2
  · rw [DefaultSimulatorImpl.remove, if_pos uid]
    exact inv.remove_destroy known uid
  by_cases expired : s.sim.isExpired id = true
  · rw [DefaultSimulatorImpl.remove, if_neg uid, if_pos expired]
    exact inv.withdraw_expired known expired
  obtain ⟨e, rfl, issued, fresh, held, once⟩ := inv.removable known uid expired
  have flagged := inv.flagged issued fresh
  have dropped := flagged.dropped (sched.contents_remove e s.sim.events held once) mem_cons_self
  rw [remove, if_neg uid, if_neg expired, withdraw, if_neg fresh]
  exact dropped

/-! ## Events of other threads and of the end of the simulation -/

theorem Inv.from_thread {impl : Nat} (context : Nat) (delay : Int)
    (new : impl ∉ s.impls) (few : s.impls.length + 1 < 2 ^ 32 - 4)
    (room : (sched.contents s.sim.events).length + s.sim.eventsWithContext.length + 1 < 2 ^ 31) :
    Simulation.Inv sched
      { s with
        sim := s.sim.pushWithContext context delay impl
        impls := impl :: s.impls } := by
  obtain ⟨scheduled, atDestroy, ownImpls, known⟩ := inv
  have calls := ownImpls.calls
  constructor
  case scheduled =>
    refine { scheduled with uid_small := ?_, count_small := ?_ }
    · have low := scheduled.uid_small.1
      simp only [pushWithContext, length_append, length_cons, length_nil]
      omega
    · simp only [pushWithContext, length_append]
      omega
  case atDestroy => exact { atDestroy with }
  case ownImpls =>
    constructor
    case calls =>
      simp only [pushWithContext, length_append, length_cons, length_nil]
      omega
    case once => exact nodup_cons.2 ⟨new, ownImpls.once⟩
    case whose =>
      simp only [pushWithContext, map_append, ← append_assoc]
      have whose := ownImpls.whose
      rw [← append_assoc] at whose
      exact (whose.cons impl).trans (perm_append_singleton impl _).symm
    case clean =>
      intro i which
      simp only [pushWithContext, map_append, map_cons,
        map_nil, mem_append, mem_cons, not_mem_nil, or_false] at which ⊢
      rcases which with absent | waits | rfl
      · exact ownImpls.clean i (.inl fun mem => absent (.inr mem))
      · exact ownImpls.clean i (.inr waits)
      · exact ownImpls.clean i (.inl new)
  case known => exact known

theorem Inv.schedule_destroy {impl : Nat} (new : impl ∉ s.impls)
    (few : s.impls.length + 1 < 2 ^ 32 - 4) :
    Simulation.Inv sched
      { s with
        sim := (s.sim.scheduleDestroy impl).1
        issuedDestroy := s.issuedDestroy ++ [(s.sim.scheduleDestroy impl).2]
        impls := impl :: s.impls } := by
  obtain ⟨scheduled, atDestroy, ownImpls, known⟩ := inv
  generalize made : (⟨impl, ⟨s.sim.currentTs, 2, 0xffffffff⟩⟩ : Event) = ev
  have ev_uid : ev.key.uid = 2 := by rw [← made]
  have ev_impl : ev.impl = impl := by rw [← made]
  have calls := ownImpls.calls
  have uid_next : (s.sim.uid + 1) % 2 ^ 32 = s.sim.uid + 1 := Nat.mod_eq_of_lt (by omega)
  have differ : ∀ e, e ∈ s.issued ∨ e ∈ s.issuedDestroy → e.id ≠ ev.id := by
    intro e issued same
    obtain rfl := Event.id_inj same
    exact new (ev_impl ▸ ownImpls.impl_mem issued)
  have unheld : ev.id ∉ s.sim.destroyEvents := by
    intro held
    obtain ⟨e, issued, same⟩ := (atDestroy.held ev.id held).1
    exact differ e (.inr issued) same
  have unran : ev.id ∉ s.invokedDestroy := by
    intro ran
    obtain ⟨e, issued, same⟩ := (atDestroy.ran ev.id ran).1
    exact differ e (.inr issued) same
  have unwithdrawn : ev.id ∉ s.withdrawn := by
    intro withdrawn
    obtain ⟨e, issued, same⟩ := (known ev.id withdrawn).event nofun
    exact differ e issued same
  rw [scheduleDestroy, made, uid_next]
  constructor
  case scheduled =>
    refine { scheduled with uids := ?_, uid_small := ?_, current_old := ?_ }
    · intro e issued
      have bounds := scheduled.uids e issued
      exact ⟨bounds.1, Nat.lt_succ_of_lt bounds.2⟩
    · have low := scheduled.uid_small.1
      dsimp only
      omega
    · exact Nat.lt_succ_of_lt scheduled.current_old
  case atDestroy =>
    constructor
    case uids =>
      intro e mem
      rcases mem_append.1 mem with issued | last
      · exact atDestroy.uids e issued
      · rw [mem_singleton.1 last]
        exact ev_uid
    case once =>
      rw [(perm_append_singleton ev.id _).nodup_iff]
      exact nodup_cons.2 ⟨unheld, atDestroy.once⟩
    case held =>
      intro id mem
      rcases mem_append.1 mem with held | last
      · obtain ⟨⟨e, issued, same⟩, unran⟩ := atDestroy.held id held
        exact ⟨⟨e, mem_append_left _ issued, same⟩, unran⟩
      · rw [mem_singleton.1 last]
        exact ⟨⟨ev, mem_append_right _ (mem_singleton_self _), rfl⟩, unran⟩
    case kept =>
      intro e mem
      rcases mem_append.1 mem with issued | last
      · rcases atDestroy.kept e issued with held | gone
        · exact .inl (mem_append_left _ held)
        · exact .inr gone
      · rw [mem_singleton.1 last]
        exact .inl (mem_append_right _ (mem_singleton_self _))
    case ran =>
      intro id ran
      obtain ⟨⟨e, issued, same⟩, not_withdrawn⟩ := atDestroy.ran id ran
      exact ⟨⟨e, mem_append_left _ issued, same⟩, not_withdrawn⟩
    case ran_once => exact atDestroy.ran_once
    case flags =>
      intro e mem held
      rcases mem_append.1 mem with issued | last
      · rcases mem_append.1 held with held | same
        · exact atDestroy.flags e issued held
        · exact absurd (mem_singleton.1 same) (differ e (.inr issued))
      · rw [mem_singleton.1 last]
        have clean := ownImpls.clean impl (.inl new)
        simp [ev_impl, clean, unwithdrawn]
  case ownImpls =>
    constructor
    case calls =>
      simp only [length_cons]
      omega
    case once => exact nodup_cons.2 ⟨new, ownImpls.once⟩
    case whose =>
      simp only [map_append, map_cons, append_assoc, ev_impl]
      have whose := ownImpls.whose
      rw [← append_assoc] at whose
      refine (whose.cons impl).trans ?_
      rw [← append_assoc]
      exact perm_middle.symm
    case clean =>
      rintro i (absent | waits)
      · exact ownImpls.clean i (.inl fun mem => absent (mem_cons_of_mem _ mem))
      · exact ownImpls.clean i (.inr waits)
  case known =>
    intro id withdrawn
    rcases known id withdrawn with none | now | ⟨e, issued, same⟩
    · exact .inl none
    · exact .inr (.inl now)
    · exact .inr (.inr ⟨e, mem_append_left _ issued, same⟩)

end

theorem AtDestroy.isCancelled_iff (atDestroy : s.AtDestroy) (held : id ∈ s.sim.destroyEvents) :
    s.sim.isCancelled id = true ↔ id ∈ s.withdrawn := by
  obtain ⟨e, issued, rfl⟩ := (atDestroy.held id held).1
  exact atDestroy.flags e issued held

/-- `Destroy` takes the first event. It runs unless it is cancelled. -/
theorem Inv.destroy_next (inv : s.Inv sched) {rest : List EventId}
    (here : s.sim.destroyEvents = id :: rest) {ran : List EventId}
    (which : s.sim.isCancelled id = true ∧ ran = s.invokedDestroy ∨
      ¬ s.sim.isCancelled id = true ∧ ran = s.invokedDestroy ++ [id]) :
    Simulation.Inv sched
      { s with sim := { s.sim with destroyEvents := rest }, invokedDestroy := ran } := by
  obtain ⟨scheduled, atDestroy, ownImpls, known⟩ := inv
  have held_id : id ∈ s.sim.destroyEvents := here ▸ mem_cons_self
  have held_rest : ∀ x ∈ rest, x ∈ s.sim.destroyEvents := by
    intro x mem
    rw [here]
    exact mem_cons_of_mem _ mem
  have distinct := atDestroy.once
  rw [here, nodup_cons] at distinct
  have issued_id := (atDestroy.held id held_id).1
  have unran := (atDestroy.held id held_id).2
  have withdrawn_iff := atDestroy.isCancelled_iff held_id
  have ran_mem : ∀ x, x ∈ ran ↔ x ∈ s.invokedDestroy ∨ x = id ∧ ¬ s.sim.isCancelled id = true := by
    intro x
    rcases which with ⟨cancelled, rfl⟩ | ⟨valid, rfl⟩
    · simp [cancelled]
    · simp [valid]
  constructor
  case scheduled => exact { scheduled with }
  case atDestroy =>
    refine ⟨atDestroy.uids, ?_, ?_, ?_, ?_, ?_, ?_⟩
    · exact distinct.2
    · intro x mem
      obtain ⟨issued, before⟩ := atDestroy.held x (held_rest x mem)
      refine ⟨issued, ?_⟩
      rw [ran_mem]
      rintro (already | ⟨rfl, -⟩)
      · exact before already
      · exact distinct.1 mem
    · intro e issued
      rcases atDestroy.kept e issued with held | already | withdrawn
      · rw [here] at held
        rcases mem_cons.1 held with same | later
        · by_cases cancelled : s.sim.isCancelled id = true
          · exact .inr (.inr (same ▸ withdrawn_iff.1 cancelled))
          · exact .inr (.inl ((ran_mem e.id).2 (.inr ⟨same, cancelled⟩)))
        · exact .inl later
      · exact .inr (.inl ((ran_mem e.id).2 (.inl already)))
      · exact .inr (.inr withdrawn)
    · intro x mem
      rcases (ran_mem x).1 mem with already | ⟨rfl, valid⟩
      · exact atDestroy.ran x already
      · exact ⟨issued_id, mt withdrawn_iff.2 valid⟩
    · rcases which with ⟨-, rfl⟩ | ⟨-, rfl⟩
      · exact atDestroy.ran_once
      · rw [(perm_append_singleton id _).nodup_iff]
        exact nodup_cons.2 ⟨unran, atDestroy.ran_once⟩
    · exact fun e issued mem => atDestroy.flags e issued (held_rest e.id mem)
  case ownImpls => exact { ownImpls with }
  case known => exact known

end Ns3.Core.Simulation
