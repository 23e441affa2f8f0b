import Ns3.Core.Simulator

/-!
# What holds of the simulator between any two steps

The events the scheduler holds come after the current one, and every event that
was scheduled is held, has run, or was cancelled or removed.
-/

namespace Ns3.Core

open List DefaultSimulatorImpl

theorem EventKey.Lt.trans {a b c : EventKey} (first : a.Lt b) (second : b.Lt c) : a.Lt c := by
  unfold EventKey.Lt at *
  omega

theorem EventKey.lt_irrefl (a : EventKey) : ¬ a.Lt a := by
  unfold EventKey.Lt
  omega

theorem EventKey.Lt.of_not_lt {a b c : EventKey} (not_after : ¬ a.Lt b) (before : a.Lt c) :
    b.Lt c := by
  unfold EventKey.Lt at *
  omega

theorem EventKey.lt_of_not_lt {a b : EventKey} (not_lt : ¬ b.Lt a) (differ : a.uid ≠ b.uid) :
    a.Lt b := by
  unfold EventKey.Lt at *
  omega

theorem Event.id_inj {a b : Event} (same : a.id = b.id) : a = b := by
  obtain ⟨impl, ts, uid, context⟩ := a
  obtain ⟨impl', ts', uid', context'⟩ := b
  obtain ⟨rfl, rfl, rfl, rfl⟩ := same
  rfl

theorem toUint64_eq {t : Int} (low : 0 ≤ t) (high : t < 2 ^ 64) : (toUint64 t : Int) = t := by
  unfold toUint64
  rw [Int.emod_eq_of_lt low high, Int.toNat_of_nonneg low]

theorem toInt32_eq {n : Int} (low : -2 ^ 31 ≤ n) (high : n < 2 ^ 31) : toInt32 n = n := by
  unfold toInt32
  rw [Int.bmod_def]
  omega

variable {Q : Type}

/-- The key of the event that is running or ran last. -/
def DefaultSimulatorImpl.current (s : DefaultSimulatorImpl Q) : EventKey :=
  ⟨s.currentTs, s.currentUid, s.currentContext⟩

namespace Simulation

/-- The events that were given to the scheduler. -/
structure Scheduled (sched : Scheduler Q) (s : Simulation Q) : Prop where
  order : s.issued.Pairwise fun a b => a.key.uid < b.key.uid
  uids : ∀ e ∈ s.issued, 4 ≤ e.key.uid ∧ e.key.uid < s.sim.uid
  uid_small : 4 ≤ s.sim.uid ∧ s.sim.uid + s.sim.eventsWithContext.length < 2 ^ 32
  current_old : s.sim.currentUid < s.sim.uid
  held : ∀ e ∈ sched.contents s.sim.events, e ∈ s.issued ∧ s.sim.current.Lt e.key
  held_once : (sched.contents s.sim.events).Nodup
  kept : ∀ e ∈ s.issued, e ∈ sched.contents s.sim.events ∨ (∃ r ∈ s.invoked, r.1 = e) ∨
    e.id ∈ s.withdrawn
  ran : ∀ r ∈ s.invoked, r.1 ∈ s.issued ∧ r.2 = r.1.key.ts ∧ ¬ s.sim.current.Lt r.1.key ∧
    r.1.id ∉ s.withdrawn
  ran_order : s.invoked.Pairwise fun a b => a.1.key.Lt b.1.key
  flags : ∀ e ∈ s.issued, s.sim.cancelled e.impl = true ↔ e.id ∈ s.withdrawn
  count : s.sim.unscheduledEvents = (sched.contents s.sim.events).length
  times : s.sim.currentTs < 2 ^ 63 ∧ ∀ e ∈ s.issued, e.key.ts < 2 ^ 63
  count_small : (sched.contents s.sim.events).length + s.sim.eventsWithContext.length < 2 ^ 31

/-- The events for the end of the simulation. -/
structure AtDestroy (s : Simulation Q) : Prop where
  uids : ∀ e ∈ s.issuedDestroy, e.key.uid = 2
  once : s.sim.destroyEvents.Nodup
  held : ∀ id ∈ s.sim.destroyEvents, (∃ e ∈ s.issuedDestroy, e.id = id) ∧ id ∉ s.invokedDestroy
  kept : ∀ e ∈ s.issuedDestroy, e.id ∈ s.sim.destroyEvents ∨ e.id ∈ s.invokedDestroy ∨
    e.id ∈ s.withdrawn
  ran : ∀ id ∈ s.invokedDestroy, (∃ e ∈ s.issuedDestroy, e.id = id) ∧ id ∉ s.withdrawn
  ran_once : s.invokedDestroy.Nodup
  flags : ∀ e ∈ s.issuedDestroy, e.id ∈ s.sim.destroyEvents →
    (s.sim.cancelled e.impl = true ↔ e.id ∈ s.withdrawn)

/-- Each scheduling call brought an `EventImpl` of its own. -/
structure OwnImpls (s : Simulation Q) : Prop where
  calls : s.sim.uid + s.sim.eventsWithContext.length = s.impls.length + 4
  once : s.impls.Nodup
  whose : s.impls.Perm (s.issued.map Event.impl ++ (s.issuedDestroy.map Event.impl ++
    s.sim.eventsWithContext.map EventWithContext.impl))
  clean : ∀ impl, impl ∉ s.impls ∨ impl ∈ s.sim.eventsWithContext.map EventWithContext.impl →
    s.sim.cancelled impl = false

structure Inv (sched : Scheduler Q) (s : Simulation Q) : Prop where
  scheduled : s.Scheduled sched
  atDestroy : s.AtDestroy
  ownImpls : s.OwnImpls
  known : ∀ id ∈ s.withdrawn, s.Known id

variable {sched : Scheduler Q} {s : Simulation Q}

/-! ## `IsExpired` -/

variable {e : Event} {impl ts : Nat}

theorem isExpired_key (valid : e.key.uid ≠ 2) (sim : DefaultSimulatorImpl Q) :
    sim.isExpired e.id = true ↔ sim.cancelled e.impl = true ∨ ¬ sim.current.Lt e.key := by
  dsimp only [isExpired, Event.id, current]
  rw [if_neg valid]
  simp only [Bool.or_eq_true, Bool.and_eq_true, decide_eq_true_eq, EventKey.Lt, or_assoc]
  refine or_congr_right ?_
  omega

theorem isExpired_destroy (uid : e.key.uid = 2) (sim : DefaultSimulatorImpl Q) :
    sim.isExpired e.id = true ↔ sim.cancelled e.impl = true ∨ e.id ∉ sim.destroyEvents := by
  have id_uid : e.id.uid = e.key.uid := rfl
  rw [isExpired, if_pos (id_uid.trans uid)]
  simp [isCancelled, Event.id]

theorem Scheduled.expired_iff (scheduled : s.Scheduled sched) (issued : e ∈ s.issued) :
    s.sim.isExpired e.id = true ↔ (∃ r ∈ s.invoked, r.1 = e) ∨ e.id ∈ s.withdrawn := by
  have valid : e.key.uid ≠ 2 := by
    have bounds := scheduled.uids e issued
    omega
  rw [isExpired_key valid, scheduled.flags e issued]
  constructor
  · rintro (withdrawn | passed)
    · exact .inr withdrawn
    · rcases scheduled.kept e issued with held | started | withdrawn
      · exact absurd (scheduled.held e held).2 passed
      · exact .inl started
      · exact .inr withdrawn
  · rintro (⟨r, ran, rfl⟩ | withdrawn)
    · exact .inr (scheduled.ran r ran).2.2.1
    · exact .inl withdrawn

theorem AtDestroy.expired_iff (atDestroy : s.AtDestroy) (issued : e ∈ s.issuedDestroy) :
    s.sim.isExpired e.id = true ↔ e.id ∈ s.invokedDestroy ∨ e.id ∈ s.withdrawn := by
  rw [isExpired_destroy (atDestroy.uids e issued)]
  by_cases held : e.id ∈ s.sim.destroyEvents
  · have not_ran := (atDestroy.held e.id held).2
    rw [atDestroy.flags e issued held]
    simp [held, not_ran]
  · have gone := (atDestroy.kept e issued).resolve_left held
    simp [held, gone]

/-! ## Scheduling -/

theorem Scheduled.uid_ne (scheduled : s.Scheduled sched) (issued : e ∈ s.issued) :
    e.key.uid ≠ s.sim.uid := by
  have old := (scheduled.uids e issued).2
  omega

theorem Scheduled.uid_inj (scheduled : s.Scheduled sched) {a b : Event} (issued : a ∈ s.issued)
    (issued' : b ∈ s.issued) (same : a.key.uid = b.key.uid) : a = b := by
  have once : (s.issued.map fun e => e.key.uid).Nodup :=
    pairwise_map.2 (scheduled.order.imp fun before => Nat.ne_of_lt before)
  exact inj_on_of_nodup_map once issued issued' same

theorem Inv.new_not_withdrawn (inv : s.Inv sched) (new : e.key.uid = s.sim.uid) :
    e.id ∉ s.withdrawn := by
  intro withdrawn
  rcases inv.known e.id withdrawn with none | ⟨e', issued, same⟩ | ⟨e', issued, same⟩
  · cases none
  · obtain rfl := Event.id_inj same
    exact inv.scheduled.uid_ne issued new
  · obtain rfl := Event.id_inj same
    have destroy := inv.atDestroy.uids e' issued
    have low := inv.scheduled.uid_small.1
    omega

/-- A new event in the scheduler. The other threads' events become `waiting`. -/
def inserted (sched : Scheduler Q) (s : Simulation Q) (impl ts context : Nat)
    (waiting : List EventWithContext) (impls : List Nat) : Simulation Q :=
  let result := s.sim.insert sched impl ts context
  { s with
    sim := { result.1 with eventsWithContext := waiting }
    issued := s.issued ++ [result.2]
    impls }

theorem Scheduled.inserted (inv : s.Inv sched) (context : Nat) {waiting : List EventWithContext}
    (impls : List Nat) (later : s.sim.currentTs ≤ ts) (small : ts < 2 ^ 63)
    (clean : s.sim.cancelled impl = false) (few : s.sim.uid + 1 + waiting.length < 2 ^ 32)
    (room : (sched.contents s.sim.events).length + 1 + waiting.length < 2 ^ 31) :
    (s.inserted sched impl ts context waiting impls).Scheduled sched := by
  have scheduled := inv.scheduled
  generalize made : (⟨impl, ⟨ts, s.sim.uid, context⟩⟩ : Event) = ev
  have ev_uid : ev.key.uid = s.sim.uid := by rw [← made]
  have uid_next : (s.sim.uid + 1) % 2 ^ 32 = s.sim.uid + 1 := Nat.mod_eq_of_lt (by omega)
  have perm : (sched.contents (sched.insert ev s.sim.events)).Perm
      (ev :: sched.contents s.sim.events) := sched.contents_insert ev s.sim.events
  have after : s.sim.current.Lt ev.key := by
    have old := scheduled.current_old
    rw [← made]
    simp only [EventKey.Lt, current]
    omega
  have unwithdrawn : ev.id ∉ s.withdrawn := inv.new_not_withdrawn ev_uid
  have eq : s.inserted sched impl ts context waiting impls =
      { s with
        sim := { s.sim with
          uid := s.sim.uid + 1
          unscheduledEvents := toInt32 (s.sim.unscheduledEvents + 1)
          events := sched.insert ev s.sim.events
          eventsWithContext := waiting }
        issued := s.issued ++ [ev]
        impls } := by rw [Simulation.inserted, DefaultSimulatorImpl.insert, uid_next, made]
  rw [eq]
  constructor
  case order =>
    rw [pairwise_append]
    refine ⟨scheduled.order, pairwise_singleton _ _, ?_⟩
    intro a issued b new
    rw [mem_singleton.1 new, ev_uid]
    exact (scheduled.uids a issued).2
  case uids =>
    intro e mem
    rcases mem_append.1 mem with issued | new
    · have bounds := scheduled.uids e issued
      exact ⟨bounds.1, by simp only; omega⟩
    · have low := scheduled.uid_small.1
      rw [mem_singleton.1 new]
      exact ⟨by omega, by simp only; omega⟩
  case uid_small =>
    have low := scheduled.uid_small.1
    exact ⟨by simp only; omega, few⟩
  case current_old => exact Nat.lt_succ_of_lt scheduled.current_old
  case held =>
    intro e mem
    rcases mem_cons.1 (perm.mem_iff.1 mem) with rfl | held
    · exact ⟨mem_append_right _ (mem_singleton_self _), after⟩
    · have before := scheduled.held e held
      exact ⟨mem_append_left _ before.1, before.2⟩
  case held_once =>
    rw [perm.nodup_iff, nodup_cons]
    refine ⟨?_, scheduled.held_once⟩
    intro held
    exact scheduled.uid_ne (scheduled.held ev held).1 ev_uid
  case kept =>
    intro e mem
    rcases mem_append.1 mem with issued | new
    · rcases scheduled.kept e issued with held | gone
      · exact .inl (perm.mem_iff.2 (mem_cons_of_mem _ held))
      · exact .inr gone
    · rw [mem_singleton.1 new]
      exact .inl (perm.mem_iff.2 mem_cons_self)
  case ran =>
    intro r ran
    have before := scheduled.ran r ran
    exact ⟨mem_append_left _ before.1, before.2⟩
  case ran_order => exact scheduled.ran_order
  case flags =>
    intro e mem
    rcases mem_append.1 mem with issued | new
    · exact scheduled.flags e issued
    · rw [mem_singleton.1 new]
      have ev_impl : ev.impl = impl := by rw [← made]
      simp [ev_impl, clean, unwithdrawn]
  case count =>
    dsimp only
    rw [perm.length_eq, length_cons, scheduled.count, toInt32_eq] <;> omega
  case times =>
    refine ⟨scheduled.times.1, ?_⟩
    intro e mem
    rcases mem_append.1 mem with issued | new
    · exact scheduled.times.2 e issued
    · rw [mem_singleton.1 new, ← made]
      exact small
  case count_small =>
    rw [perm.length_eq, length_cons]
    exact room

theorem OwnImpls.inserted (ownImpls : s.OwnImpls) {context : Nat}
    {waiting : List EventWithContext} {impls : List Nat}
    (few : s.sim.uid + 1 + waiting.length < 2 ^ 32)
    (given : impls = impl :: s.impls ∧ impl ∉ s.impls ∧ waiting = s.sim.eventsWithContext ∨
      ∃ w, impls = s.impls ∧ w.impl = impl ∧ s.sim.eventsWithContext = w :: waiting) :
    (s.inserted sched impl ts context waiting impls).OwnImpls := by
  have uid_next : (s.sim.uid + 1) % 2 ^ 32 = s.sim.uid + 1 := Nat.mod_eq_of_lt (by omega)
  have calls := ownImpls.calls
  have whose := ownImpls.whose
  rcases given with ⟨rfl, new, rfl⟩ | ⟨w, rfl, rfl, here⟩
  · constructor
    case calls =>
      simp only [Simulation.inserted, DefaultSimulatorImpl.insert, length_cons]
      omega
    case once => exact nodup_cons.2 ⟨new, ownImpls.once⟩
    case whose =>
      simp only [Simulation.inserted, map_append, append_assoc]
      exact (whose.cons impl).trans perm_middle.symm
    case clean =>
      rintro i (absent | waits)
      · exact ownImpls.clean i (.inl fun mem => absent (mem_cons_of_mem _ mem))
      · exact ownImpls.clean i (.inr waits)
  · constructor
    case calls =>
      simp only [Simulation.inserted, DefaultSimulatorImpl.insert]
      rw [here, length_cons] at calls
      omega
    case once => exact ownImpls.once
    case whose =>
      rw [here, map_cons] at whose
      simp only [Simulation.inserted, map_append, append_assoc]
      refine whose.trans (Perm.append_left _ ?_)
      exact perm_middle
    case clean =>
      rintro i (absent | waits)
      · exact ownImpls.clean i (.inl absent)
      · refine ownImpls.clean i (.inr ?_)
        rw [here]
        exact mem_cons_of_mem _ waits

theorem Known.inserted {id : EventId} (known : s.Known id) (impl ts context : Nat)
    (waiting : List EventWithContext) (impls : List Nat) :
    (s.inserted sched impl ts context waiting impls).Known id := by
  rcases known with none | ⟨e, issued, same⟩ | destroy
  · exact .inl none
  · exact .inr (.inl ⟨e, mem_append_left _ issued, same⟩)
  · exact .inr (.inr destroy)

theorem AtDestroy.inserted (atDestroy : s.AtDestroy) (impl ts context : Nat)
    (waiting : List EventWithContext) (impls : List Nat) :
    (s.inserted sched impl ts context waiting impls).AtDestroy :=
  { atDestroy with }

section

variable (inv : s.Inv sched)
include inv

theorem Inv.scheduled_call (context : Nat) (later : s.sim.currentTs ≤ ts)
    (small : ts < 2 ^ 63) (new : impl ∉ s.impls)
    (few : s.sim.uid + 1 + s.sim.eventsWithContext.length < 2 ^ 32)
    (room : (sched.contents s.sim.events).length + 1 + s.sim.eventsWithContext.length < 2 ^ 31) :
    (s.record (s.sim.insert sched impl ts context)).Inv sched := by
  have eq : s.record (s.sim.insert sched impl ts context) =
      s.inserted sched impl ts context s.sim.eventsWithContext (impl :: s.impls) := rfl
  rw [eq]
  constructor
  case scheduled =>
    exact .inserted inv context _ later small (inv.ownImpls.clean impl (.inl new)) few room
  case atDestroy => exact inv.atDestroy.inserted impl ts context _ _
  case ownImpls => exact inv.ownImpls.inserted few (.inl ⟨rfl, new, rfl⟩)
  case known => exact fun id withdrawn => (inv.known id withdrawn).inserted impl ts context _ _

theorem Inv.drained_one {w : EventWithContext} {rest : List EventWithContext}
    (here : s.sim.eventsWithContext = w :: rest) (later : s.sim.currentTs ≤ ts)
    (small : ts < 2 ^ 63) :
    (s.inserted sched w.impl ts w.context rest s.impls).Inv sched := by
  have few := inv.scheduled.uid_small.2
  have room := inv.scheduled.count_small
  rw [here, length_cons] at few room
  constructor
  case scheduled =>
    refine .inserted inv w.context _ later small (inv.ownImpls.clean w.impl (.inr ?_)) (by omega)
      (by omega)
    rw [here]
    exact mem_cons_self
  case atDestroy => exact inv.atDestroy.inserted w.impl ts w.context _ _
  case ownImpls => exact inv.ownImpls.inserted (by omega) (.inr ⟨w, rfl, rfl, here⟩)
  case known => exact fun id withdrawn => (inv.known id withdrawn).inserted _ _ _ _ _

theorem Inv.insertAll (small : ∀ w ∈ s.sim.eventsWithContext,
      s.sim.currentTs + w.timestamp < 2 ^ 63) :
    Simulation.Inv sched
      { s with
        sim := (insertAll sched s.sim.eventsWithContext
          { s.sim with eventsWithContext := [] }).1
        issued := s.issued ++ (insertAll sched s.sim.eventsWithContext
          { s.sim with eventsWithContext := [] }).2 } := by
  generalize here : s.sim.eventsWithContext = waiting at small
  induction waiting generalizing s with
  | nil =>
    simp only [insertAll, append_nil]
    rw [← here]
    exact inv
  | cons w rest ih =>
    have first := small w mem_cons_self
    have ts_eq : toUint64 (s.sim.currentTs + w.timestamp) = s.sim.currentTs + w.timestamp := by
      have exact_sum : (toUint64 (s.sim.currentTs + w.timestamp) : Int) =
          s.sim.currentTs + w.timestamp := toUint64_eq (by omega) (by omega)
      omega
    have later : s.sim.currentTs ≤ toUint64 (s.sim.currentTs + w.timestamp) := by
      rw [ts_eq]
      exact Nat.le_add_right _ _
    have all := ih (inv.drained_one here later (ts_eq ▸ first)) rfl
      fun v mem => small v (mem_cons_of_mem _ mem)
    simp only [Simulation.inserted, append_assoc] at all
    exact all

theorem Inv.at_phase (phase : Phase) (stop : Bool) :
    Simulation.Inv sched { s with phase, sim := { s.sim with stop } } := by
  obtain ⟨scheduled, atDestroy, ownImpls, known⟩ := inv
  constructor
  case scheduled =>
    exact { scheduled with }
  case atDestroy =>
    exact { atDestroy with }
  case ownImpls => exact { ownImpls with }
  case known => exact known

theorem Inv.drain (phase : Phase)
    (small : ∀ w ∈ s.sim.eventsWithContext, s.sim.currentTs + w.timestamp < 2 ^ 63) :
    (s.drain sched phase).Inv sched :=
  (inv.insertAll small).at_phase phase _

end

/-! ## Cancelling and removing -/

theorem OwnImpls.ours (ownImpls : s.OwnImpls) :
    ((s.issued ++ s.issuedDestroy).map Event.impl).Nodup := by
  have once := ownImpls.whose.nodup_iff.1 ownImpls.once
  rw [← append_assoc, ← map_append] at once
  exact (nodup_append.1 once).1

theorem OwnImpls.event_eq (ownImpls : s.OwnImpls) {e' : Event}
    (issued : e ∈ s.issued ∨ e ∈ s.issuedDestroy) (issued' : e' ∈ s.issued ∨ e' ∈ s.issuedDestroy)
    (same : e.impl = e'.impl) : e = e' :=
  inj_on_of_nodup_map ownImpls.ours (mem_append.2 issued) (mem_append.2 issued') same

theorem OwnImpls.impl_mem (ownImpls : s.OwnImpls) (issued : e ∈ s.issued ∨ e ∈ s.issuedDestroy) :
    e.impl ∈ s.impls := by
  rw [ownImpls.whose.mem_iff]
  rcases issued with issued | issued
  · exact mem_append_left _ (mem_map_of_mem issued)
  · exact mem_append_right _ (mem_append_left _ (mem_map_of_mem issued))

theorem OwnImpls.not_waiting (ownImpls : s.OwnImpls) (issued : e ∈ s.issued ∨ e ∈ s.issuedDestroy) :
    e.impl ∉ s.sim.eventsWithContext.map EventWithContext.impl := by
  have once := ownImpls.whose.nodup_iff.1 ownImpls.once
  rw [← append_assoc, ← map_append] at once
  intro waits
  have ours : e.impl ∈ (s.issued ++ s.issuedDestroy).map Event.impl :=
    mem_map_of_mem (mem_append.2 issued)
  exact (nodup_append.1 once).2.2 _ ours _ waits rfl

theorem Scheduled.started_iff (scheduled : s.Scheduled sched) (atDestroy : s.AtDestroy)
    (issued : e ∈ s.issued) : s.Started e.id ↔ ∃ r ∈ s.invoked, r.1 = e := by
  constructor
  · rintro (⟨r, ran, same⟩ | ran)
    · exact ⟨r, ran, Event.id_inj same⟩
    · obtain ⟨e', issued', same⟩ := (atDestroy.ran e.id ran).1
      obtain rfl := Event.id_inj same
      have low := (scheduled.uids e' issued).1
      have uid := atDestroy.uids e' issued'
      omega
  · rintro ⟨r, ran, rfl⟩
    exact .inl ⟨r, ran, rfl⟩

theorem AtDestroy.started_iff (scheduled : s.Scheduled sched) (atDestroy : s.AtDestroy)
    (issued : e ∈ s.issuedDestroy) : s.Started e.id ↔ e.id ∈ s.invokedDestroy := by
  constructor
  · rintro (⟨r, ran, same⟩ | ran)
    · have issued' := (scheduled.ran r ran).1
      obtain rfl := Event.id_inj same
      have low := (scheduled.uids r.1 issued').1
      have uid := atDestroy.uids r.1 issued
      omega
    · exact ran
  · exact .inr

theorem Inv.expired_iff (inv : s.Inv sched) (issued : e ∈ s.issued ∨ e ∈ s.issuedDestroy) :
    s.sim.isExpired e.id = true ↔ s.Started e.id ∨ e.id ∈ s.withdrawn := by
  rcases issued with issued | issued
  · rw [inv.scheduled.started_iff inv.atDestroy issued]
    exact inv.scheduled.expired_iff issued
  · rw [AtDestroy.started_iff inv.scheduled inv.atDestroy issued]
    exact inv.atDestroy.expired_iff issued

theorem Inv.of_withdrawn_iff (inv : s.Inv sched) {withdrawn : List EventId}
    (same : ∀ e, e ∈ s.issued ∨ e ∈ s.issuedDestroy → (e.id ∈ withdrawn ↔ e.id ∈ s.withdrawn))
    (known : ∀ id ∈ withdrawn, s.Known id) : Simulation.Inv sched { s with withdrawn } := by
  obtain ⟨scheduled, atDestroy, ownImpls, -⟩ := inv
  constructor
  case scheduled =>
    refine { scheduled with kept := ?_, ran := ?_, flags := ?_ }
    · intro e issued
      have before := scheduled.kept e issued
      rw [← same e (.inl issued)] at before
      exact before
    · intro r ran
      obtain ⟨issued, ts, passed, not_withdrawn⟩ := scheduled.ran r ran
      rw [← same r.1 (.inl issued)] at not_withdrawn
      exact ⟨issued, ts, passed, not_withdrawn⟩
    · intro e issued
      rw [scheduled.flags e issued]
      exact (same e (.inl issued)).symm
  case atDestroy =>
    refine { atDestroy with kept := ?_, ran := ?_, flags := ?_ }
    · intro e issued
      have before := atDestroy.kept e issued
      rw [← same e (.inr issued)] at before
      exact before
    · intro id ran
      obtain ⟨⟨e, issued, rfl⟩, not_withdrawn⟩ := atDestroy.ran id ran
      rw [← same e (.inr issued)] at not_withdrawn
      exact ⟨⟨e, issued, rfl⟩, not_withdrawn⟩
    · intro e issued held
      rw [atDestroy.flags e issued held]
      exact (same e (.inr issued)).symm
  case ownImpls => exact { ownImpls with }
  case known => exact known

theorem Inv.withdraw_expired (inv : s.Inv sched) {id : EventId} (known : s.Known id)
    (expired : s.sim.isExpired id = true) : (s.withdraw id s.sim).Inv sched := by
  refine inv.of_withdrawn_iff ?_ ?_
  · intro e issued
    split
    · rfl
    case isFalse not_started =>
      rw [mem_cons]
      constructor
      · rintro (rfl | withdrawn)
        · exact ((inv.expired_iff issued).1 expired).resolve_left not_started
        · exact withdrawn
      · exact .inr
  · intro x mem
    split at mem
    · exact inv.known x mem
    · rcases mem_cons.1 mem with rfl | withdrawn
      · exact known
      · exact inv.known x withdrawn

theorem Inv.flagged (inv : s.Inv sched) (issued : e ∈ s.issued ∨ e ∈ s.issuedDestroy)
    (not_started : ¬ s.Started e.id) :
    Simulation.Inv sched
      { s with
        sim := { s.sim with cancelled := Function.update s.sim.cancelled e.impl true }
        withdrawn := e.id :: s.withdrawn } := by
  obtain ⟨scheduled, atDestroy, ownImpls, known⟩ := inv
  have flag : ∀ e', e' ∈ s.issued ∨ e' ∈ s.issuedDestroy →
      (s.sim.cancelled e'.impl = true ↔ e'.id ∈ s.withdrawn) →
      (Function.update s.sim.cancelled e.impl true e'.impl = true ↔
        e'.id ∈ e.id :: s.withdrawn) := by
    intro e' issued' before
    by_cases same : e' = e
    · rw [same]
      simp
    · have impl_ne : e'.impl ≠ e.impl := fun eq => same (ownImpls.event_eq issued' issued eq)
      have id_ne : e'.id ≠ e.id := fun eq => same (Event.id_inj eq)
      rw [Function.update_of_ne impl_ne, before, mem_cons]
      simp [id_ne]
  constructor
  case scheduled =>
    refine { scheduled with kept := ?_, ran := ?_, flags := ?_ }
    · exact fun e' issued' => (scheduled.kept e' issued').imp_right (.imp_right (mem_cons_of_mem _))
    · intro r ran
      obtain ⟨issued', ts, passed, not_withdrawn⟩ := scheduled.ran r ran
      refine ⟨issued', ts, passed, ?_⟩
      intro mem
      rcases mem_cons.1 mem with same | withdrawn
      · exact not_started (.inl ⟨r, ran, same⟩)
      · exact not_withdrawn withdrawn
    · intro e' issued'
      exact flag e' (.inl issued') (scheduled.flags e' issued')
  case atDestroy =>
    refine { atDestroy with kept := ?_, ran := ?_, flags := ?_ }
    · exact fun e' issued' => (atDestroy.kept e' issued').imp_right (.imp_right (mem_cons_of_mem _))
    · intro id ran
      obtain ⟨issued', not_withdrawn⟩ := atDestroy.ran id ran
      refine ⟨issued', ?_⟩
      intro mem
      rcases mem_cons.1 mem with rfl | withdrawn
      · exact not_started (.inr ran)
      · exact not_withdrawn withdrawn
    · intro e' issued' held
      exact flag e' (.inr issued') (atDestroy.flags e' issued' held)
  case ownImpls =>
    refine { ownImpls with clean := ?_ }
    intro impl which
    have impl_ne : impl ≠ e.impl := by
      rintro rfl
      rcases which with absent | waits
      · exact absent (ownImpls.impl_mem issued)
      · exact ownImpls.not_waiting issued waits
    dsimp only
    rw [Function.update_of_ne impl_ne]
    exact ownImpls.clean impl which
  case known =>
    intro id mem
    rcases mem_cons.1 mem with rfl | withdrawn
    · rcases issued with issued | issued
      · exact .inr (.inl ⟨e, issued, rfl⟩)
      · exact .inr (.inr ⟨e, issued, rfl⟩)
    · exact known id withdrawn

end Simulation

end Ns3.Core
