import Ns3.Internet.Ipv4PartialPacket
import Ns3.Library.Machine
import Ns3.Time

/-!
# The timeouts of IPv4 reassembly

The fragments that `Ipv4L3Protocol` keeps, with the list of their timeouts and the `HandleTimeout`
events that are scheduled for it. A timeout keeps its number in the list, and the fragments point
at it with that number; a new one is numbered by the timeouts that were set before it.
-/

namespace Ns3.Internet

open Segment Ipv4L3Protocol List Option Function

/-- What a fragment brings is bounded by its header. -/
structure ReceivedFragment extends Ipv4PayloadHeaderPair where
  fits : Fits ⟨header.fragmentOffset, packet⟩

/-- An element of `m_timeoutEventList`. -/
structure FragmentsTimeout where
  iter : Nat
  time : Time
  key : FragmentKey
  header : Ipv4Header
  iif : Nat

/-- `Fragments` with `m_timeoutIter`. -/
structure TimedFragments where
  fragments : Fragments
  timeoutIter : Nat

/-- A call of the drop trace. -/
structure FragmentsDrop where
  iter : Nat
  time : Time
  header : Ipv4Header
  packet : List UInt8
  iif : Nat

/-- The fragments and their timeouts; when the first fragment for each timeout came, which of
them were erased for a complete packet, and what was dropped and sent. -/
structure Reassembler where
  now : Time
  fragments : FragmentKey → Option TimedFragments
  timeoutEventList : List FragmentsTimeout
  timeoutEvents : List Time
  firsts : List Time
  completed : List Nat
  dropped : List FragmentsDrop
  timeExceeded : List (Ipv4Header × List UInt8)

/-- `Simulator::Schedule`: when the event is due. -/
def schedule (now delay : Time) : Option Time := if 0 ≤ delay then some (now + delay) else none

namespace Reassembler

def create (now : Time) : Reassembler := ⟨now, fun _ => none, [], [], [], [], [], []⟩

def setTimeout (timeout : Time) (w : Reassembler) (key : FragmentKey) (header : Ipv4Header)
    (iif : Nat) : Option (Nat × Reassembler) := do
  let timeoutEvents ← (if w.timeoutEventList.isEmpty then
      (schedule w.now timeout).map (· :: w.timeoutEvents)
    else some w.timeoutEvents : Option (List Time))
  let iter := w.firsts.length
  return (iter, { w with
    timeoutEvents
    timeoutEventList := w.timeoutEventList ++ [⟨iter, w.now + timeout, key, header, iif⟩]
    firsts := w.firsts ++ [w.now] })

/-- The first half of `ProcessFragment`: the fragments of the key, which it makes. -/
def findFragments (timeout : Time) (w : Reassembler) (key : FragmentKey) (header : Ipv4Header)
    (iif : Nat) : Option (TimedFragments × Reassembler) :=
  match w.fragments key with
  | some b => some (b, w)
  | none => do
    let (iter, w) ← setTimeout timeout w key header iif
    let b : TimedFragments := ⟨{}, iter⟩
    return (b, { w with fragments := Function.update w.fragments key (some b) })

/-- `ProcessFragment`: the packet when it is complete. -/
def processFragment (timeout : Time) (w : Reassembler) (p : Ipv4PayloadHeaderPair) (iif : Nat) :
    Option (Option (List UInt8) × Reassembler) := do
  let key := fragmentKey p.header
  let (b, w) ← findFragments timeout w key p.header iif
  let fragments := b.fragments.addFragment ⟨p.header.fragmentOffset, p.packet⟩
    (!p.header.isLastFragment)
  if fragments.isEntire then
    let packet ← fragments.getPacket
    return (some packet, { w with
      timeoutEventList := w.timeoutEventList.eraseP (·.iter == b.timeoutIter)
      fragments := Function.update w.fragments key none
      completed := w.completed ++ [b.timeoutIter] })
  else
    return (none, { w with
      fragments := Function.update w.fragments key (some { b with fragments }) })

def handleFragmentsTimeout (metadata : Bool) (w : Reassembler) (key : FragmentKey)
    (header : Ipv4Header) (iif : Nat) : Option Reassembler := do
  let b ← w.fragments key
  let packet ← b.fragments.getPartialPacket metadata
  return { w with
    timeExceeded :=
      if 8 < packet.length then w.timeExceeded ++ [(header, packet)] else w.timeExceeded
    dropped := w.dropped ++ [⟨b.timeoutIter, w.now, header, packet, iif⟩]
    fragments := Function.update w.fragments key none }

/-- The loop of `HandleTimeout`. -/
def expireLoop (metadata : Bool) : List FragmentsTimeout → Reassembler → Option Reassembler
  | [], w => some { w with timeoutEventList := [] }
  | t :: rest, w =>
    if t.time = w.now then
      (handleFragmentsTimeout metadata w t.key t.header t.iif).bind (expireLoop metadata rest)
    else some { w with timeoutEventList := t :: rest }

def handleTimeout (metadata : Bool) (w : Reassembler) : Option Reassembler := do
  let w ← expireLoop metadata w.timeoutEventList w
  match w.timeoutEventList with
  | [] => return w
  | t :: _ =>
    let e ← schedule w.now (t.time - w.now)
    return { w with timeoutEvents := e :: w.timeoutEvents }

end Reassembler

inductive ReassemblyEvent
  | receive (p : ReceivedFragment) (iif : Nat)
  | elapse (d : Time)
  | handleTimeout

namespace Reassembler

/-- Time does not pass an event that is due. -/
def step (timeout : Time) (metadata : Bool) (w : Reassembler) :
    ReassemblyEvent → Option Reassembler
  | .receive p iif => (processFragment timeout w p.toIpv4PayloadHeaderPair iif).map (·.2)
  | .elapse d =>
    if 0 ≤ d ∧ ∀ e ∈ w.timeoutEvents, w.now + d ≤ e then some { w with now := w.now + d } else none
  | .handleTimeout =>
    if w.now ∈ w.timeoutEvents then
      handleTimeout metadata { w with timeoutEvents := w.timeoutEvents.erase w.now }
    else none

/-- The states of all runs. -/
def Reached (timeout : Time) (metadata : Bool) : Reassembler → Prop :=
  Machine.Reaches (step timeout metadata) (fun _ _ => True) fun w => ∃ now, w = create now

/-- The fragments of each datagram, without their timeouts. -/
def buffers (w : Reassembler) : FragmentMap := fun key => (w.fragments key).map (·.fragments)

/-- Fragments as they wait for the rest. -/
structure Waiting (fs : Fragments) : Prop where
  nonempty : fs.fragments ≠ []
  ordered : Ordered fs.fragments
  fits : ∀ x ∈ fs.fragments, Fits x
  incomplete : fs.isEntire = false

/-- What was complete is not dropped and what was dropped does not come back, what was dropped
was so when its time was over, and all the rest waits; its time is not over, and it will not be
missed. -/
structure Timely (timeout : Time) (w : Reassembler) : Prop where
  once : (w.completed ++ w.dropped.map (·.iter)).Nodup
  dropped : ∀ d ∈ w.dropped, ∃ first, w.firsts[d.iter]? = some first ∧ d.time = first + timeout
  waits : ∀ i < w.firsts.length, i ∉ w.completed → i ∉ w.dropped.map (·.iter) →
    ∃ key b, w.fragments key = some b ∧ b.timeoutIter = i
  waiting : ∀ key b, w.fragments key = some b →
    Waiting b.fragments ∧ b.timeoutIter ∉ w.completed ∧ b.timeoutIter ∉ w.dropped.map (·.iter) ∧
      ∃ first, w.firsts[b.timeoutIter]? = some first ∧ w.now ≤ first + timeout ∧
        ∃ e ∈ w.timeoutEvents, e ≤ first + timeout

/-! ## The list of timeouts -/

/-- The timeouts and the fragments point at each other, and the list is in the order of time. -/
structure Timers (timeout : Time) (w : Reassembler) : Prop where
  sorted : w.timeoutEventList.Pairwise fun a b => a.time ≤ b.time
  recent : ∀ t ∈ w.timeoutEventList, t.time ≤ w.now + timeout
  first : ∀ t ∈ w.timeoutEventList, w.firsts[t.iter]? = some (t.time - timeout)
  found : ∀ t ∈ w.timeoutEventList, ∃ b, w.fragments t.key = some b ∧ b.timeoutIter = t.iter
  listed : ∀ key b, w.fragments key = some b →
    ∃ t ∈ w.timeoutEventList, t.iter = b.timeoutIter ∧ t.key = key
  fates : (w.timeoutEventList.map (·.iter) ++ (w.completed ++ w.dropped.map (·.iter))).Perm
    (List.range w.firsts.length)
  on_time : ∀ d ∈ w.dropped, w.firsts[d.iter]? = some (d.time - timeout)

section

variable {timeout : Time} {w w' : Reassembler} {key : FragmentKey} {b : TimedFragments}

theorem set_before {firsts : List Time} {i : Nat} {first now : Time}
    (set : firsts[i]? = some first) : (firsts ++ [now])[i]? = some first := by
  obtain ⟨inside, -⟩ := List.getElem?_eq_some_iff.mp set
  rw [getElem?_append_left inside]
  exact set

namespace Timers

theorem create (timeout now : Time) : Timers timeout (create now) where
  sorted := .nil
  recent := nofun
  first := nofun
  found := nofun
  listed := nofun
  fates := .refl _
  on_time := nofun

section

variable (timers : Timers timeout w)
include timers

theorem nodup : (w.timeoutEventList.map (·.iter) ++
    (w.completed ++ w.dropped.map (·.iter))).Nodup :=
  timers.fates.nodup_iff.mpr nodup_range

theorem iter_inj {t u : FragmentsTimeout}
    (t_mem : t ∈ w.timeoutEventList) (u_mem : u ∈ w.timeoutEventList) (same : t.iter = u.iter) :
    t = u :=
  inj_on_of_nodup_map (nodup_append.mp timers.nodup).1 t_mem u_mem same

theorem remove {before after : List FragmentsTimeout}
    {t : FragmentsTimeout} (split : w.timeoutEventList = before ++ t :: after)
    {completed : List Nat} {dropped : List FragmentsDrop}
    (fate : (completed ++ dropped.map (·.iter)).Perm
      (t.iter :: (w.completed ++ w.dropped.map (·.iter))))
    (on_time : ∀ d ∈ dropped, w.firsts[d.iter]? = some (d.time - timeout))
    (sent : List (Ipv4Header × List UInt8)) :
    Timers timeout { w with
      timeoutEventList := before ++ after
      fragments := Function.update w.fragments t.key none
      completed, dropped, timeExceeded := sent } := by
  have sub : (before ++ after).Sublist w.timeoutEventList := by
    rw [split]
    exact (Sublist.refl before).append (sublist_cons_self t after)
  have t_mem : t ∈ w.timeoutEventList := by simp [split]
  have others : ∀ u ∈ before ++ after, u.iter ≠ t.iter := by
    have nodup := (nodup_append.mp timers.nodup).1
    rw [split, map_append, map_cons, nodup_middle, ← map_append] at nodup
    intro u mem same
    exact (nodup_cons.mp nodup).1 (List.mem_map.mpr ⟨u, mem, same⟩)
  exact {
    sorted := timers.sorted.sublist sub
    recent := fun u mem => timers.recent u (sub.subset mem)
    first := fun u mem => timers.first u (sub.subset mem)
    found := by
      intro u mem
      obtain ⟨b, found, points⟩ := timers.found u (sub.subset mem)
      obtain ⟨c, t_found, t_points⟩ := timers.found t t_mem
      refine ⟨b, ?_, points⟩
      dsimp only
      rw [update_of_ne]
      · exact found
      · intro same
        rw [same, t_found] at found
        cases found
        exact others u mem (points.symm.trans t_points)
    listed := by
      intro key b found
      dsimp only at found ⊢
      obtain ⟨apart, found⟩ : key ≠ t.key ∧ w.fragments key = some b := by
        by_cases here : key = t.key
        · rw [here, update_self] at found
          cases found
        · rw [update_of_ne here] at found
          exact ⟨here, found⟩
      obtain ⟨u, mem, points, is⟩ := timers.listed key b found
      refine ⟨u, ?_, points, is⟩
      rw [split, mem_append, mem_cons] at mem
      rw [mem_append]
      rcases mem with mem | rfl | mem
      · exact .inl mem
      · exact absurd is.symm apart
      · exact .inr mem
    fates := by
      apply List.Perm.trans _ timers.fates
      apply (Perm.append_left _ fate).trans
      rw [split, map_append, map_append, map_cons, append_assoc, append_assoc]
      exact Perm.append_left _ perm_middle
    on_time }

theorem store (found : w.fragments key = some b) (fragments : Fragments) : Timers timeout { w with
      fragments := Function.update w.fragments key (some { b with fragments }) } :=
  { timers with
    found := by
      intro t mem
      obtain ⟨c, t_found, points⟩ := timers.found t mem
      by_cases here : t.key = key
      · rw [here, found] at t_found
        cases t_found
        refine ⟨{ b with fragments }, ?_, points⟩
        dsimp only
        simp [here]
      · refine ⟨c, ?_, points⟩
        dsimp only
        rw [update_of_ne here]
        exact t_found
    listed := by
      intro k c k_found
      by_cases here : k = key
      · subst here
        dsimp only at k_found
        rw [update_self] at k_found
        cases k_found
        exact timers.listed k b found
      · dsimp only at k_found
        rw [update_of_ne here] at k_found
        exact timers.listed k c k_found }

theorem add (absent : w.fragments key = none) (header : Ipv4Header)
    (iif : Nat) (fragments : Fragments) (timeoutEvents : List Time) :
    Timers timeout { w with
      timeoutEvents
      timeoutEventList :=
        w.timeoutEventList ++ [⟨w.firsts.length, w.now + timeout, key, header, iif⟩]
      firsts := w.firsts ++ [w.now]
      fragments := Function.update w.fragments key (some ⟨fragments, w.firsts.length⟩) } where
  sorted := by
    rw [pairwise_append]
    refine ⟨timers.sorted, pairwise_singleton _ _, ?_⟩
    intro t mem u last
    rw [mem_singleton.mp last]
    exact timers.recent t mem
  recent := by
    intro t mem
    dsimp only at mem ⊢
    rw [mem_append, mem_singleton] at mem
    rcases mem with mem | rfl
    · exact timers.recent t mem
    · exact Int.le_refl _
  first := by
    intro t mem
    dsimp only at mem ⊢
    rw [mem_append, mem_singleton] at mem
    rcases mem with mem | rfl
    · exact set_before (timers.first t mem)
    · rw [getElem?_concat_length, Int.add_sub_cancel]
  found := by
    intro t mem
    dsimp only at mem ⊢
    rw [mem_append, mem_singleton] at mem
    rcases mem with mem | rfl
    · obtain ⟨b, found, points⟩ := timers.found t mem
      refine ⟨b, ?_, points⟩
      rw [update_of_ne]
      · exact found
      · intro same
        rw [same, absent] at found
        cases found
    · exact ⟨_, update_self .., rfl⟩
  listed := by
    intro k c k_found
    dsimp only at k_found ⊢
    by_cases here : k = key
    · subst here
      rw [update_self] at k_found
      cases k_found
      exact ⟨_, mem_append_right _ mem_cons_self, rfl, rfl⟩
    · rw [update_of_ne here] at k_found
      obtain ⟨t, mem, points⟩ := timers.listed k c k_found
      exact ⟨t, mem_append_left _ mem, points⟩
  fates := by
    dsimp only
    rw [map_append, map_singleton, append_assoc, length_append, length_singleton, range_succ]
    apply perm_middle.trans
    apply (perm_append_singleton _ _).symm.trans
    exact timers.fates.append_right _
  on_time d mem := set_before (timers.on_time d mem)

end

end Timers

/-! ## Steps -/

/-- The timeouts with the scheduled events: there is one for each timeout, or before it. -/
structure Kept (timeout : Time) (w : Reassembler) : Prop extends Timers timeout w where
  ahead : ∀ e ∈ w.timeoutEvents, w.now ≤ e
  scheduled : ∀ t ∈ w.timeoutEventList, ∃ e ∈ w.timeoutEvents, e ≤ t.time
  waiting : ∀ key b, w.fragments key = some b → Waiting b.fragments

theorem Kept.due (kept : Kept timeout w) {t : FragmentsTimeout} (mem : t ∈ w.timeoutEventList) :
    w.now ≤ t.time := by
  obtain ⟨e, scheduled, before⟩ := kept.scheduled t mem
  exact Int.le_trans (kept.ahead e scheduled) before

theorem Kept.create (timeout now : Time) : Kept timeout (create now) where
  toTimers := .create timeout now
  ahead := nofun
  scheduled := nofun
  waiting := nofun

theorem schedule_some {now delay e : Time} (h : schedule now delay = some e) :
    0 ≤ delay ∧ e = now + delay := by
  obtain ⟨nonneg, is⟩ := ite_none_right_eq_some.mp h
  exact ⟨nonneg, (Option.some.inj is).symm⟩

variable {header : Ipv4Header} {iif : Nat} {metadata : Bool}

theorem findFragments_spec (h : findFragments timeout w key header iif = some (b, w')) :
    (w.fragments key = some b ∧ w' = w) ∨
    (w.fragments key = none ∧ b = ⟨{}, w.firsts.length⟩ ∧ ∃ timeoutEvents,
      (w.timeoutEventList = [] ∧ 0 ≤ timeout ∧
          timeoutEvents = (w.now + timeout) :: w.timeoutEvents ∨
        w.timeoutEventList ≠ [] ∧ timeoutEvents = w.timeoutEvents) ∧
      w' = { w with
        timeoutEvents
        timeoutEventList :=
          w.timeoutEventList ++ [⟨w.firsts.length, w.now + timeout, key, header, iif⟩]
        firsts := w.firsts ++ [w.now]
        fragments := Function.update w.fragments key (some ⟨{}, w.firsts.length⟩) }) := by
  unfold findFragments at h
  cases found : w.fragments key with
  | some c =>
    rw [found] at h
    cases h
    exact .inl ⟨rfl, rfl⟩
  | none =>
    rw [found] at h
    simp only [setTimeout, bind_eq_bind, bind_eq_some_iff, Option.pure_def,
      Option.some.injEq, Prod.exists, Prod.mk.injEq] at h
    obtain ⟨iter, mid, ⟨events, set, rfl, rfl⟩, rfl, rfl⟩ := h
    refine .inr ⟨rfl, rfl, events, ?_, rfl⟩
    cases empty : w.timeoutEventList with
    | nil =>
      rw [empty] at set
      obtain ⟨e, due, rfl⟩ := map_eq_some_iff.mp set
      obtain ⟨nonneg, rfl⟩ := schedule_some due
      exact .inl ⟨rfl, nonneg, rfl⟩
    | cons t rest =>
      rw [empty] at set
      exact .inr ⟨nofun, (Option.some.inj set).symm⟩

theorem Kept.findFragments (kept : Kept timeout w)
    (h : findFragments timeout w key header iif = some (b, w')) :
    Timers timeout w' ∧ w'.fragments key = some b ∧ (∀ e ∈ w'.timeoutEvents, w'.now ≤ e) ∧
      (∀ t ∈ w'.timeoutEventList, ∃ e ∈ w'.timeoutEvents, e ≤ t.time) ∧
      (∀ k c, k ≠ key → w'.fragments k = some c → Waiting c.fragments) ∧
      Ordered b.fragments.fragments ∧ ∀ x ∈ b.fragments.fragments, Fits x := by
  rcases findFragments_spec h with ⟨found, rfl⟩ | ⟨absent, rfl, events, cases, rfl⟩
  · have waiting := kept.waiting key b found
    exact ⟨kept.toTimers, found, kept.ahead, kept.scheduled, fun k c _ => kept.waiting k c,
      waiting.ordered, waiting.fits⟩
  · refine ⟨kept.toTimers.add absent header iif {} events, update_self .., ?_, ?_, ?_, .nil, nofun⟩
    · intro e mem
      dsimp only at mem ⊢
      rcases cases with ⟨-, nonneg, rfl⟩ | ⟨-, rfl⟩
      · cases mem with
        | head => exact Int.le_add_of_nonneg_right nonneg
        | tail _ mem => exact kept.ahead e mem
      · exact kept.ahead e mem
    · intro t mem
      dsimp only at mem ⊢
      rw [mem_append, mem_singleton] at mem
      rcases cases with ⟨empty, -, rfl⟩ | ⟨nonempty, rfl⟩
      · rw [empty] at mem
        rcases mem with mem | rfl
        · cases mem
        · exact ⟨_, mem_cons_self, Int.le_refl _⟩
      · rcases mem with mem | rfl
        · exact kept.scheduled t mem
        · obtain ⟨u, held⟩ := exists_mem_of_ne_nil _ nonempty
          obtain ⟨e, scheduled, before⟩ := kept.scheduled u held
          exact ⟨e, scheduled, Int.le_trans before (kept.recent u held)⟩
    · intro k c apart found
      dsimp only at found
      rw [update_of_ne apart] at found
      exact kept.waiting k c found

theorem Kept.processFragment (kept : Kept timeout w) {p : ReceivedFragment}
    {packet : Option (List UInt8)}
    (h : processFragment timeout w p.toIpv4PayloadHeaderPair iif = some (packet, w')) :
    Kept timeout w' := by
  simp only [Reassembler.processFragment, bind_eq_bind, bind_eq_some_iff, Prod.exists] at h
  obtain ⟨b, mid, found, h⟩ := h
  obtain ⟨timers, held, ahead, scheduled, others, ordered, fits⟩ := kept.findFragments found
  split at h
  case isTrue entire =>
    obtain ⟨whole, -, done⟩ := bind_eq_some_iff.mp h
    cases done
    obtain ⟨t, mem, points, is⟩ := timers.listed _ b held
    obtain ⟨u, before, after, others_apart, is_it, split, erased⟩ := exists_of_eraseP
      (p := (·.iter == b.timeoutIter)) mem (by simp [points])
    obtain rfl : u = t := timers.iter_inj (by simp [split]) mem
      ((eq_of_beq is_it).trans points.symm)
    have fate : (mid.completed ++ [b.timeoutIter] ++ mid.dropped.map (·.iter)).Perm
        (u.iter :: (mid.completed ++ mid.dropped.map (·.iter))) := by
      rw [append_assoc, points]
      exact perm_middle
    have removed := timers.remove split fate timers.on_time mid.timeExceeded
    rw [is, ← erased] at removed
    exact {
      toTimers := removed
      ahead := ahead
      scheduled := fun v held => scheduled v (mem_of_mem_eraseP held)
      waiting := by
        intro k c k_found
        dsimp only at k_found
        by_cases here : k = fragmentKey p.header
        · rw [here, update_self] at k_found
          cases k_found
        · rw [update_of_ne here] at k_found
          exact others k c here k_found }
  case isFalse waits =>
    cases h
    exact {
      toTimers := timers.store held _
      ahead := ahead
      scheduled := scheduled
      waiting := by
        intro k c k_found
        dsimp only at k_found
        by_cases here : k = fragmentKey p.header
        · rw [here, update_self] at k_found
          cases k_found
          have grown {x : Segment UInt8} : x ∈ (b.fragments.addFragment
              ⟨p.header.fragmentOffset, p.packet⟩ (!p.header.isLastFragment)).fragments ↔
              x = ⟨p.header.fragmentOffset, p.packet⟩ ∨ x ∈ b.fragments.fragments := mem_insert
          exact {
            nonempty := ne_nil_of_mem (grown.mpr (.inl rfl))
            ordered := ordered.insert _
            fits := by
              intro x mem
              rcases grown.mp mem with rfl | mem
              · exact p.fits
              · exact fits x mem
            incomplete := Bool.eq_false_iff.mpr waits }
        · rw [update_of_ne here] at k_found
          exact others k c here k_found }

theorem handleFragmentsTimeout_spec
    (h : handleFragmentsTimeout metadata w key header iif = some w') :
    ∃ b packet sent, w.fragments key = some b ∧ w' = { w with
      timeExceeded := sent
      dropped := w.dropped ++ [⟨b.timeoutIter, w.now, header, packet, iif⟩]
      fragments := Function.update w.fragments key none } := by
  simp only [handleFragmentsTimeout, bind_eq_bind, bind_eq_some_iff,
    Option.pure_def, Option.some.injEq] at h
  obtain ⟨b, found, packet, -, rfl⟩ := h
  exact ⟨b, packet, _, found, rfl⟩

theorem Timers.expire {t : FragmentsTimeout} {rest : List FragmentsTimeout}
    (timers : Timers timeout { w with timeoutEventList := t :: rest }) (ended : t.time = w.now)
    (h : handleFragmentsTimeout metadata w t.key t.header t.iif = some w') :
    Timers timeout { w' with timeoutEventList := rest } ∧ w'.now = w.now ∧
      w'.timeoutEvents = w.timeoutEvents ∧
      ∀ key b, w'.fragments key = some b → w.fragments key = some b := by
  obtain ⟨b, packet, sent, found, rfl⟩ := handleFragmentsTimeout_spec h
  obtain ⟨c, t_found, points⟩ := timers.found t mem_cons_self
  cases found.symm.trans t_found
  refine ⟨?_, rfl, rfl, ?_⟩
  · apply timers.remove (nil_append _).symm
    · rw [map_append, points, ← append_assoc]
      exact perm_append_singleton _ _
    · intro d mem
      dsimp only at mem ⊢
      rw [mem_append, mem_singleton] at mem
      rcases mem with mem | rfl
      · exact timers.on_time d mem
      · dsimp only
        rw [points, ← ended]
        exact timers.first t mem_cons_self
  · intro key c held
    dsimp only at held
    by_cases here : key = t.key
    · rw [here, update_self] at held
      cases held
    · rw [update_of_ne here] at held
      exact held

theorem Timers.expireLoop {list : List FragmentsTimeout}
    (timers : Timers timeout { w with timeoutEventList := list })
    (h : expireLoop metadata list w = some w') :
    Timers timeout w' ∧ w'.now = w.now ∧ w'.timeoutEvents = w.timeoutEvents ∧
      (∀ t ∈ w'.timeoutEventList, t ∈ list) ∧
      ∀ key b, w'.fragments key = some b → w.fragments key = some b := by
  induction list generalizing w with
  | nil =>
    cases h
    exact ⟨timers, rfl, rfl, nofun, fun key b held => held⟩
  | cons t rest ih =>
    rw [Reassembler.expireLoop] at h
    split at h
    case isTrue ended =>
      obtain ⟨mid, handled, later⟩ := bind_eq_some_iff.mp h
      obtain ⟨mid_timers, now, events, less⟩ := timers.expire ended handled
      obtain ⟨timers', now', events', sub, less'⟩ := ih mid_timers later
      refine ⟨timers', now'.trans now, events'.trans events, ?_, ?_⟩
      · exact fun u mem => mem_cons_of_mem _ (sub u mem)
      · exact fun key b held => less key b (less' key b held)
    case isFalse waits =>
      cases h
      exact ⟨timers, rfl, rfl, fun u mem => mem, fun key b held => held⟩

theorem Kept.handleTimeout (kept : Kept timeout w)
    (h : handleTimeout metadata { w with timeoutEvents := w.timeoutEvents.erase w.now } = some w') :
    Kept timeout w' := by
  rw [Reassembler.handleTimeout, bind_eq_bind, bind_eq_some_iff] at h
  obtain ⟨mid, looped, h⟩ := h
  have timers : Timers timeout { w with timeoutEvents := w.timeoutEvents.erase w.now } :=
    { kept.toTimers with }
  obtain ⟨timers', now, events, sub, less⟩ := timers.expireLoop looped
  have waiting : ∀ key b, mid.fragments key = some b → Waiting b.fragments :=
    fun key b held => kept.waiting key b (less key b held)
  have ahead : ∀ e ∈ mid.timeoutEvents, mid.now ≤ e := by
    intro e mem
    rw [events] at mem
    rw [now]
    exact kept.ahead e (mem_of_mem_erase mem)
  split at h
  case h_1 left =>
    cases h
    exact ⟨timers', ahead, by simp [left], waiting⟩
  case h_2 t rest left =>
    obtain ⟨e, due, done⟩ := bind_eq_some_iff.mp h
    cases done
    obtain ⟨nonneg, rfl⟩ := schedule_some due
    refine ⟨{ timers' with }, ?_, ?_, waiting⟩
    · intro e mem
      cases mem with
      | head => exact Int.le_add_of_nonneg_right nonneg
      | tail _ mem => exact ahead e mem
    · intro u mem
      refine ⟨_, mem_cons_self, ?_⟩
      have sorted := timers'.sorted
      rw [left] at mem sorted
      rw [Int.add_comm, Int.sub_add_cancel]
      cases mem with
      | head => exact Int.le_refl _
      | tail _ mem => exact (pairwise_cons.mp sorted).1 u mem

theorem Kept.step (kept : Kept timeout w) {e : ReassemblyEvent}
    (h : step timeout metadata w e = some w') : Kept timeout w' := by
  cases e with
  | receive p iif =>
    obtain ⟨⟨packet, _⟩, processed, rfl⟩ := map_eq_some_iff.mp h
    exact kept.processFragment processed
  | elapse d =>
    obtain ⟨⟨nonneg, within⟩, is⟩ := ite_none_right_eq_some.mp h
    cases is
    exact { kept with
      recent := by
        intro t mem
        have recent := kept.recent t mem
        exact Int.le_trans recent (Int.add_le_add_right (Int.le_add_of_nonneg_right nonneg) _)
      ahead := within }
  | handleTimeout =>
    obtain ⟨-, handled⟩ := ite_none_right_eq_some.mp h
    exact kept.handleTimeout handled

theorem Reached.kept (reached : Reached timeout metadata w) : Kept timeout w := by
  apply Machine.Reaches.invariant reached
  · rintro _ ⟨now, rfl⟩
    exact .create timeout now
  · exact fun s e s' kept _ here => kept.step here

theorem Kept.timely (kept : Kept timeout w) : Timely timeout w where
  once := (nodup_append.mp kept.nodup).2.1
  dropped d mem := ⟨_, kept.on_time d mem, (Int.sub_add_cancel _ _).symm⟩
  waits := by
    intro i set not_completed not_dropped
    have mem := kept.fates.mem_iff.mpr (mem_range.mpr set)
    rw [mem_append, mem_append] at mem
    rcases mem with mem | mem | mem
    · obtain ⟨t, held, rfl⟩ := List.mem_map.mp mem
      obtain ⟨b, found, points⟩ := kept.found t held
      exact ⟨t.key, b, found, points⟩
    · exact absurd mem not_completed
    · exact absurd mem not_dropped
  waiting := by
    intro key b found
    obtain ⟨t, mem, points, -⟩ := kept.listed key b found
    have apart := (nodup_append.mp kept.nodup).2.2 t.iter (List.mem_map_of_mem mem)
    rw [← points]
    refine ⟨kept.waiting key b found, ?_, ?_, t.time - timeout, kept.first t mem, ?_⟩
    · exact fun completed => apart _ (mem_append_left _ completed) rfl
    · exact fun dropped => apart _ (mem_append_right _ dropped) rfl
    · rw [Int.sub_add_cancel]
      exact ⟨kept.due mem, kept.scheduled t mem⟩

/-! ## What `HandleTimeout` needs -/

theorem Timers.expireLoop_isSome {list : List FragmentsTimeout}
    (timers : Timers timeout { w with timeoutEventList := list })
    (partials : ∀ key b, w.fragments key = some b → (b.fragments.getPartialPacket metadata).isSome) :
    (Reassembler.expireLoop metadata list w).isSome := by
  induction list generalizing w with
  | nil => rfl
  | cons t rest ih =>
    rw [Reassembler.expireLoop]
    split
    case isTrue ended =>
      obtain ⟨b, found, -⟩ := timers.found t mem_cons_self
      obtain ⟨packet, is⟩ := isSome_iff_exists.mp (partials t.key b found)
      obtain ⟨mid, handled⟩ : ∃ mid,
          handleFragmentsTimeout metadata w t.key t.header t.iif = some mid := by
        dsimp only at found
        simp [handleFragmentsTimeout, found, is]
      obtain ⟨mid_timers, -, -, less⟩ := timers.expire ended handled
      rw [handled, bind_some]
      exact ih mid_timers fun key c held => partials key c (less key c held)
    case isFalse => rfl

theorem Kept.handleTimeout_isSome (kept : Kept timeout w)
    (partials : ∀ key b, w.fragments key = some b → (b.fragments.getPartialPacket metadata).isSome) :
    (Reassembler.handleTimeout metadata
      { w with timeoutEvents := w.timeoutEvents.erase w.now }).isSome := by
  have timers : Timers timeout { w with timeoutEvents := w.timeoutEvents.erase w.now } :=
    { kept.toTimers with }
  obtain ⟨mid, looped⟩ := isSome_iff_exists.mp (Timers.expireLoop_isSome
    (w := { w with timeoutEvents := w.timeoutEvents.erase w.now }) timers partials)
  obtain ⟨-, now, -, sub, -⟩ := timers.expireLoop looped
  rw [Reassembler.handleTimeout, looped]
  cases left : mid.timeoutEventList with
  | nil => simp [left]
  | cons t rest =>
    have due := kept.due (sub t (by simp [left]))
    have nonneg : 0 ≤ t.time - mid.now := by
      rw [now]
      exact Int.sub_nonneg.mpr due
    simp only [bind_eq_bind, bind_some, left, schedule, if_pos nonneg]
    rfl

/-! ## The reassembly without its timeouts -/

end

/-- A fragment of the datagram 7, with more to come. -/
def pieceOf (offset : Fin 100) (size : Fin 100) : ReceivedFragment where
  packet := List.replicate size 0
  header := ⟨1, 2, 17, 7, size, offset, true⟩
  fits := ⟨Nat.lt_trans offset.isLt (by decide), by
    rw [length_replicate]
    exact Nat.lt_trans size.isLt (by decide)⟩

/-- Two fragments, and the time until the first is 30 old. -/
def twoFragments (first second : ReceivedFragment) : Option Reassembler :=
  Machine.runAllowed (step 30 true) (fun _ _ => True) (create 0)
    [.receive first 1, .elapse 10, .receive second 1, .elapse 20]

theorem twoFragments_reached {first second : ReceivedFragment} {w : Reassembler}
    (run : twoFragments first second = some w) : Reached 30 true w :=
  Machine.Reaches.of_runAllowed (.start ⟨0, rfl⟩) run

end Reassembler

end Ns3.Internet
