import Mathlib.Data.List.Count
import Ns3.Internet.ArpCache

/-!
# Where the packets of an ARP cache are

A run of `ArpL3Protocol` and one `ArpCache`, with what becomes of the packets.
The wait-reply timer runs out before an entry that waits expires. Only an entry
that is made permanent or static while it waits keeps packets that no reply and
no timer will take.
-/

namespace Ns3.Internet

open List Option

variable {P A : Type}

/-- The attributes of the cache, and the addresses of the interface and the device. -/
structure ArpDevice (A : Type) extends ArpAttributes where
  addresses : List Ipv4Address
  own : A

/-- The cache at a time, and the packets given to `Lookup` with what became of them. -/
structure ArpWorld (P A : Type) where
  now : Time
  cache : ArpCache P A
  given : List P
  sent : List P
  dropped : List P
  discarded : List P

inductive ArpEvent (P A : Type)
  | elapse (d : Time)
  | lookup (packet : P) (destination : Ipv4Address)
  | receive (arp : ArpL3Protocol.ArpHeader A)
  | handleWaitReplyTimeout
  | add (to_ : Ipv4Address)
  | setMacAddress (to_ : Ipv4Address) (macAddress : A)
  | markPermanent (to_ : Ipv4Address)
  | markAutoGenerated (to_ : Ipv4Address)
  | remove (to_ : Ipv4Address)
  | removeAutoGeneratedEntries
  | flush

namespace ArpWorld

def create : ArpWorld P A := ⟨0, .create, [], [], [], []⟩

/-- A packet after `Lookup`. -/
def placed (w : ArpWorld P A) (packet : P) : ArpVerdict A → ArpWorld P A
  | .found _ => { w with given := w.given ++ [packet], sent := w.sent ++ [packet] }
  | .pending => { w with given := w.given ++ [packet] }
  | .drop => { w with given := w.given ++ [packet], dropped := w.dropped ++ [packet] }

/-- Time does not pass the end of the timer, nor the end of the clock. -/
def step [DecidableEq A] (d : ArpDevice A) (w : ArpWorld P A) :
    ArpEvent P A → Option (ArpWorld P A)
  | .elapse delay =>
    if 0 ≤ delay ∧ w.now + delay ≤ timeMax ∧ ∀ t ∈ w.cache.waitReplyTimer, w.now + delay ≤ t then
      some { w with now := w.now + delay }
    else none
  | .lookup packet destination => do
    let (c, verdict) ← ArpL3Protocol.lookup d.toArpAttributes w.now w.cache packet destination
    return { w with cache := c }.placed packet verdict
  | .receive arp =>
    let (c, sent) := ArpL3Protocol.receive d.addresses d.own w.now w.cache arp
    some { w with cache := c, sent := w.sent ++ sent }
  | .handleWaitReplyTimeout =>
    if w.cache.waitReplyTimer = some w.now then do
      let (c, dropped) ← w.cache.handleWaitReplyTimeout d.toArpAttributes w.now
      return { w with cache := c, dropped := w.dropped ++ dropped }
    else none
  | .add to_ => do
    return { w with cache := ← w.cache.add to_ }
  | .setMacAddress to_ macAddress => do
    return { w with cache := ← w.cache.setMacAddress to_ macAddress }
  | .markPermanent to_ => do
    return { w with cache := ← w.cache.markPermanent w.now to_ }
  | .markAutoGenerated to_ => do
    return { w with cache := ← w.cache.markAutoGenerated w.now to_ }
  | .remove to_ => do
    let (c, discarded) ← w.cache.remove to_
    return { w with cache := c, discarded := w.discarded ++ discarded }
  | .removeAutoGeneratedEntries =>
    let (c, discarded) := w.cache.removeAutoGeneratedEntries
    some { w with cache := c, discarded := w.discarded ++ discarded }
  | .flush =>
    let (c, discarded) := w.cache.flush
    some { w with cache := c, discarded := w.discarded ++ discarded }

end ArpWorld

/-- A run, each step of which is `allowed`. -/
inductive ArpRun [DecidableEq A] (d : ArpDevice A)
    (allowed : ArpWorld P A → ArpEvent P A → Prop) : ArpWorld P A → Prop
  | start : ArpRun d allowed .create
  | step {w w' : ArpWorld P A} (run : ArpRun d allowed w) (e : ArpEvent P A) (ok : allowed w e)
      (here : w.step d e = some w') : ArpRun d allowed w'

/-- The packets that wait for a reply. -/
def pendings (cache : List (Ipv4Address × ArpEntry P A)) : List P :=
  cache.flatMap fun x => x.2.pending

/-- Resolution as it should be. -/
structure Resolves (a : ArpAttributes) (w : ArpWorld P A) : Prop where
  timer : (∃ x ∈ w.cache.cache, x.2.state = .waitReply) → w.cache.waitReplyTimer.isSome = true
  unexpired : ∀ (to_ : Ipv4Address) (e : ArpEntry P A), w.cache.lookup to_ = some e →
    e.isExpired a w.now = true → e.state ≠ .waitReply
  /-- `Lookup` does not fail -/
  lookups : 0 ≤ a.waitReplyTimeout → ∀ (packet : P) (destination : Ipv4Address),
    (ArpL3Protocol.lookup a w.now w.cache packet destination).isSome = true
  pending : ∀ x ∈ w.cache.cache, x.2.pending ≠ [] → x.2.state = .waitReply
  conserved : (w.sent ++ pendings w.cache.cache ++ w.dropped ++ w.discarded).Perm w.given

/-! ## The entries -/

namespace ArpCache

variable {to_ : Ipv4Address} {e : ArpEntry P A} {cache : List (Ipv4Address × ArpEntry P A)}

theorem find_split (found : find to_ cache = some e) : ∃ before after,
    cache = before ++ (to_, e) :: after ∧
      (∀ e', assign to_ e' cache = before ++ (to_, e') :: after) ∧
      eraseKey to_ cache = before ++ after := by
  induction cache with
  | nil => cases found
  | cons x rest ih =>
    obtain ⟨key, old⟩ := x
    unfold find at found
    by_cases here : key = to_
    · rw [if_pos here] at found
      cases found
      subst here
      exact ⟨[], rest, rfl, fun e' => by simp [assign], by simp [eraseKey]⟩
    · rw [if_neg here] at found
      obtain ⟨before, after, eq, assigned, erased⟩ := ih found
      refine ⟨(key, old) :: before, after, by rw [eq]; rfl, fun e' => ?_, ?_⟩
      · rw [assign, if_neg here, assigned]
        rfl
      · rw [eraseKey, if_neg here, erased]
        rfl

theorem insertKey_split (to_ : Ipv4Address) (e : ArpEntry P A)
    (cache : List (Ipv4Address × ArpEntry P A)) : ∃ before after,
    cache = before ++ after ∧ insertKey to_ e cache = before ++ (to_, e) :: after := by
  induction cache with
  | nil => exact ⟨[], [], rfl, rfl⟩
  | cons x rest ih =>
    obtain ⟨key, old⟩ := x
    unfold insertKey
    split
    · exact ⟨[], (key, old) :: rest, rfl, rfl⟩
    · obtain ⟨before, after, eq, inserted⟩ := ih
      exact ⟨(key, old) :: before, after, by rw [eq]; rfl, by rw [inserted]; rfl⟩

theorem find_insertKey (absent : find to_ cache = none) :
    find to_ (insertKey to_ e cache) = some e := by
  induction cache with
  | nil => simp [insertKey, find]
  | cons x rest ih =>
    obtain ⟨key, old⟩ := x
    unfold find at absent
    by_cases here : key = to_
    · simp [here] at absent
    · rw [if_neg here] at absent
      unfold insertKey
      split
      · simp [find]
      · rw [find, if_neg here]
        exact ih absent

theorem mem_assign {e' : ArpEntry P A} (found : find to_ cache = some e)
    {x : Ipv4Address × ArpEntry P A} (mem : x ∈ assign to_ e' cache) :
    x ∈ cache ∨ x = (to_, e') := by
  obtain ⟨before, after, eq, assigned, -⟩ := find_split found
  rw [assigned] at mem
  rw [eq]
  simp only [mem_append, mem_cons] at mem ⊢
  tauto

theorem mem_eraseKey (found : find to_ cache = some e) {x : Ipv4Address × ArpEntry P A}
    (mem : x ∈ eraseKey to_ cache) : x ∈ cache := by
  obtain ⟨before, after, eq, -, erased⟩ := find_split found
  rw [erased] at mem
  rw [eq]
  simp only [mem_append] at mem ⊢
  tauto

theorem mem_of_find (found : find to_ cache = some e) : (to_, e) ∈ cache := by
  obtain ⟨before, after, eq, -, -⟩ := find_split found
  rw [eq]
  simp

theorem mem_insertKey {x : Ipv4Address × ArpEntry P A} (mem : x ∈ insertKey to_ e cache) :
    x ∈ cache ∨ x = (to_, e) := by
  obtain ⟨before, after, eq, inserted⟩ := insertKey_split to_ e cache
  rw [inserted] at mem
  rw [eq]
  simp only [mem_append, mem_cons] at mem ⊢
  tauto

section Counts

variable [DecidableEq P] (p : P)

theorem count_assign (e' : ArpEntry P A) (found : find to_ cache = some e) :
    (pendings (assign to_ e' cache)).count p + e.pending.count p =
      (pendings cache).count p + e'.pending.count p := by
  obtain ⟨before, after, eq, assigned, -⟩ := find_split found
  rw [assigned, eq]
  simp only [pendings, flatMap_append, flatMap_cons, count_append]
  omega

theorem count_eraseKey (found : find to_ cache = some e) :
    (pendings (eraseKey to_ cache)).count p + e.pending.count p = (pendings cache).count p := by
  obtain ⟨before, after, eq, -, erased⟩ := find_split found
  rw [erased, eq]
  simp only [pendings, flatMap_append, flatMap_cons, count_append]
  omega

theorem count_insertKey (to_ : Ipv4Address) (e : ArpEntry P A)
    (cache : List (Ipv4Address × ArpEntry P A)) :
    (pendings (insertKey to_ e cache)).count p = (pendings cache).count p + e.pending.count p := by
  obtain ⟨before, after, eq, inserted⟩ := insertKey_split to_ e cache
  rw [inserted, eq]
  simp only [pendings, flatMap_append, flatMap_cons, count_append]
  omega

theorem count_removed (cache : List (Ipv4Address × ArpEntry P A)) :
    (pendings (cache.filter fun x => x.2.state ≠ .staticAutogenerated)).count p +
      (pendings (cache.filter fun x => x.2.state = .staticAutogenerated)).count p =
        (pendings cache).count p := by
  induction cache with
  | nil => rfl
  | cons x rest ih =>
    by_cases static : x.2.state = .staticAutogenerated <;>
      simp only [static, filter_cons, pendings, flatMap_cons, count_append,
        ne_eq, not_true_eq_false, not_false_eq_true, decide_true, decide_false, if_true,
        Bool.false_eq_true, if_false] at ih ⊢ <;> omega

theorem count_handled (a : ArpAttributes) (now : Time) (cache : List (Ipv4Address × ArpEntry P A)) :
    (pendings (cache.map fun x => (x.1, (handleEntry a now x.2).1))).count p +
      (cache.flatMap fun x => (handleEntry a now x.2).2.1).count p = (pendings cache).count p := by
  induction cache with
  | nil => rfl
  | cons x rest ih =>
    have one : (handleEntry a now x.2).1.pending.count p + (handleEntry a now x.2).2.1.count p =
        x.2.pending.count p := by
      unfold handleEntry
      split
      · split
        · rfl
        · simp
      · rfl
    simp only [pendings, map_cons, flatMap_cons, count_append] at ih ⊢
    omega

end Counts

end ArpCache

/-! ## The invariant -/

/-- When an entry that waits runs out, and where pending packets may be. -/
structure Settled (a : ArpAttributes) (loose : Prop) (timer : Option Time) (e : ArpEntry P A) :
    Prop where
  seen : 0 ≤ e.lastSeen
  due : e.state = .waitReply → ∃ t ∈ timer, t ≤ e.lastSeen + a.waitReplyTimeout
  idle : e.pending ≠ [] →
    e.state = .waitReply ∨ loose ∧ (e.state = .permanent ∨ e.state = .staticAutogenerated)

structure CacheKept (a : ArpAttributes) (loose : Prop) (now : Time) (c : ArpCache P A) : Prop where
  start : 0 ≤ now
  clock : now ≤ timeMax
  due : ∀ t ∈ c.waitReplyTimer, now ≤ t
  soon : ∀ t ∈ c.waitReplyTimer, t ≤ now + a.waitReplyTimeout
  entries : ∀ x ∈ c.cache, Settled a loose c.waitReplyTimer x.2

namespace CacheKept

variable {a : ArpAttributes} {loose : Prop} {now : Time} {c c' : ArpCache P A} {to_ : Ipv4Address}
  {e : ArpEntry P A}

theorem create (a : ArpAttributes) (loose : Prop) :
    CacheKept a loose 0 (ArpCache.create : ArpCache P A) where
  start := Int.le_refl 0
  clock := by decide
  due := by simp [ArpCache.create]
  soon := by simp [ArpCache.create]
  entries := by simp [ArpCache.create]

section

variable (kept : CacheKept a loose now c)
include kept

theorem entry (found : c.lookup to_ = some e) :
    Settled a loose c.waitReplyTimer e := kept.entries _ (ArpCache.mem_of_find found)

theorem assign (found : c.lookup to_ = some e) {e' : ArpEntry P A}
    (settled : Settled a loose c.waitReplyTimer e') :
    CacheKept a loose now { c with cache := ArpCache.assign to_ e' c.cache } where
  start := kept.start
  clock := kept.clock
  due := kept.due
  soon := kept.soon
  entries := by
    intro x mem
    rcases ArpCache.mem_assign found mem with old | rfl
    · exact kept.entries x old
    · exact settled

theorem elapse {delay : Time} (forward : 0 ≤ delay)
    (clock : now + delay ≤ timeMax) (due : ∀ t ∈ c.waitReplyTimer, now + delay ≤ t) :
    CacheKept a loose (now + delay) c where
  start := Int.add_nonneg kept.start forward
  clock := clock
  due := due
  soon := fun t mem => Int.le_trans (kept.soon t mem)
    (Int.add_le_add_right (Int.le_add_of_nonneg_right forward) _)
  entries := kept.entries

theorem startWaitReplyTimer (found : c.lookup to_ = some e)
    {e' : ArpEntry P A} (waits : e'.state = .waitReply) (seen : e'.lastSeen = now)
    (here : { c with cache := ArpCache.assign to_ e' c.cache }.startWaitReplyTimer a now =
      some c') :
    CacheKept a loose now c' ∧ c'.cache = ArpCache.assign to_ e' c.cache := by
  have idle : e'.pending ≠ [] →
      e'.state = .waitReply ∨ loose ∧ (e'.state = .permanent ∨ e'.state = .staticAutogenerated) :=
    fun _ => Or.inl waits
  have start : 0 ≤ e'.lastSeen := seen ▸ kept.start
  unfold ArpCache.startWaitReplyTimer at here
  split at here
  · rename_i running
    cases here
    obtain ⟨t, timer⟩ := isSome_iff_exists.mp running
    refine ⟨kept.assign found ⟨start, fun _ => ⟨t, timer, ?_⟩, idle⟩, rfl⟩
    rw [seen]
    exact kept.soon t timer
  · rename_i idleTimer
    have stopped : c.waitReplyTimer = none := by simpa using idleTimer
    unfold ArpCache.schedule at here
    split at here
    · cases here
    · rename_i delay
      cases here
      have delay' : 0 ≤ a.waitReplyTimeout := Int.not_lt.mp delay
      refine ⟨⟨kept.start, kept.clock, ?_, ?_, ?_⟩, rfl⟩
      · rintro t ⟨⟩
        exact Int.le_add_of_nonneg_right delay'
      · rintro t ⟨⟩
        exact Int.le_refl _
      · intro x mem
        rcases ArpCache.mem_assign found mem with old | rfl
        · obtain ⟨seen', due', idle'⟩ := kept.entries x old
          refine ⟨seen', fun waiting => ?_, idle'⟩
          obtain ⟨t, timer, -⟩ := due' waiting
          rw [stopped] at timer
          cases timer
        · refine ⟨start, fun _ => ⟨_, rfl, ?_⟩, idle⟩
          exact Int.le_of_eq (by rw [seen])

theorem add (here : c.add to_ = some c') :
    CacheKept a loose now c' ∧ c'.lookup to_ = some .create ∧
      c'.cache = ArpCache.insertKey to_ .create c.cache := by
  unfold ArpCache.add at here
  split at here
  · cases here
  · rename_i absent
    cases here
    refine ⟨⟨kept.start, kept.clock, kept.due, kept.soon, ?_⟩, ?_, rfl⟩
    · intro x mem
      rcases ArpCache.mem_insertKey mem with old | rfl
      · exact kept.entries x old
      · exact ⟨Int.le_refl 0, fun waits => (by cases waits), fun some_ => absurd rfl some_⟩
    · exact ArpCache.find_insertKey (not_isSome_iff_eq_none.mp absent)

theorem setMacAddress {macAddress : A}
    (here : c.setMacAddress to_ macAddress = some c') :
    CacheKept a loose now c' ∧ ∃ e e', c.lookup to_ = some e ∧ e'.pending = e.pending ∧
      c'.cache = ArpCache.assign to_ e' c.cache := by
  obtain ⟨e, found, made⟩ := bind_eq_some_iff.mp here
  cases made
  obtain ⟨seen, due, idle⟩ := kept.entry found
  exact ⟨kept.assign found ⟨seen, due, idle⟩, e, { e with macAddress := some macAddress }, found,
    rfl, rfl⟩

theorem markStatic {state : ArpState} {e' : ArpEntry P A}
    (static : state = .permanent ∨ state = .staticAutogenerated) (found : c.lookup to_ = some e)
    (ok : loose ∨ e.state ≠ .waitReply) (here : e.markStatic state now = some e') :
    CacheKept a loose now { c with cache := ArpCache.assign to_ e' c.cache } ∧
      e'.pending = e.pending := by
  unfold ArpEntry.markStatic at here
  split at here
  · cases here
    have settled := kept.entry found
    refine ⟨kept.assign found ⟨kept.start, fun waits => ?_, fun some_ => Or.inr ?_⟩, rfl⟩
    · rcases static with rfl | rfl <;> cases waits
    · rcases ok with yes | idle
      · exact ⟨yes, static⟩
      · exact ⟨((settled.idle some_).resolve_left idle).1, static⟩
  · cases here

theorem remove {discarded : List P}
    (here : c.remove to_ = some (c', discarded)) :
    CacheKept a loose now c' ∧ ∃ e, c.lookup to_ = some e ∧ discarded = e.pending ∧
      c'.cache = ArpCache.eraseKey to_ c.cache := by
  obtain ⟨e, found, made⟩ := bind_eq_some_iff.mp here
  cases made
  exact ⟨⟨kept.start, kept.clock, kept.due, kept.soon, fun x mem =>
    kept.entries x (ArpCache.mem_eraseKey found mem)⟩, e, found, rfl, rfl⟩

theorem removeAutoGeneratedEntries : CacheKept a loose now c.removeAutoGeneratedEntries.1 :=
  ⟨kept.start, kept.clock, kept.due, kept.soon, fun x mem =>
    kept.entries x (mem_filter.mp mem).1⟩

theorem flush : CacheKept a loose now c.flush.1 :=
  ⟨kept.start, kept.clock, by simp [ArpCache.flush, ArpCache.create],
    by simp [ArpCache.flush, ArpCache.create], by simp [ArpCache.flush, ArpCache.create]⟩

end

/-- An entry after the timer has run out. Those that still wait do so from now on. -/
theorem handleEntry {timer : Option Time} (settled : Settled a loose timer e) (start : 0 ≤ now) :
    0 ≤ (ArpCache.handleEntry a now e).1.lastSeen ∧
    ((ArpCache.handleEntry a now e).1.state = .waitReply →
      (ArpCache.handleEntry a now e).1.lastSeen = now ∧ (ArpCache.handleEntry a now e).2.2 = true) ∧
    ((ArpCache.handleEntry a now e).1.pending ≠ [] →
      (ArpCache.handleEntry a now e).1.state = .waitReply ∨
        loose ∧ ((ArpCache.handleEntry a now e).1.state = .permanent ∨
          (ArpCache.handleEntry a now e).1.state = .staticAutogenerated)) := by
  unfold ArpCache.handleEntry
  split
  · rename_i waits
    split
    · exact ⟨start, fun _ => ⟨rfl, rfl⟩, fun _ => Or.inl waits⟩
    · exact ⟨start, fun waits' => (by cases waits'), fun some_ => absurd rfl some_⟩
  · rename_i other
    exact ⟨settled.seen, fun waits => absurd waits other, settled.idle⟩

theorem handleWaitReplyTimeout (kept : CacheKept a loose now c) {dropped : List P}
    (here : c.handleWaitReplyTimeout a now = some (c', dropped)) :
    CacheKept a loose now c' ∧
      c'.cache = c.cache.map (fun x => (x.1, (ArpCache.handleEntry a now x.2).1)) ∧
      dropped = c.cache.flatMap fun x => (ArpCache.handleEntry a now x.2).2.1 := by
  have handled := fun x (mem : x ∈ c.cache) => handleEntry (kept.entries x mem) kept.start
  unfold ArpCache.handleWaitReplyTimeout at here
  dsimp only at here
  split at here
  · obtain ⟨c'', restarted, made⟩ := bind_eq_some_iff.mp here
    cases made
    unfold ArpCache.schedule at restarted
    split at restarted
    · cases restarted
    · rename_i delay
      cases restarted
      have delay' : 0 ≤ a.waitReplyTimeout := Int.not_lt.mp delay
      refine ⟨⟨kept.start, kept.clock, ?_, ?_, ?_⟩, rfl, rfl⟩
      · rintro t ⟨⟩
        exact Int.le_add_of_nonneg_right delay'
      · rintro t ⟨⟩
        exact Int.le_refl _
      · intro x mem
        obtain ⟨y, old, rfl⟩ := List.mem_map.mp mem
        obtain ⟨seen, waits, idle⟩ := handled y old
        refine ⟨seen, fun waiting => ⟨_, rfl, ?_⟩, idle⟩
        exact Int.le_of_eq (by rw [(waits waiting).1])
  · rename_i all
    cases here
    refine ⟨⟨kept.start, kept.clock, by simp, by simp, ?_⟩, rfl, rfl⟩
    intro x mem
    obtain ⟨y, old, rfl⟩ := List.mem_map.mp mem
    obtain ⟨seen, waits, idle⟩ := handled y old
    refine ⟨seen, fun waiting => absurd ?_ all, idle⟩
    exact List.any_eq_true.mpr ⟨y, old, (waits waiting).2⟩

theorem receive [DecidableEq A] (kept : CacheKept a loose now c) (addresses : List Ipv4Address)
    (own : A) (arp : ArpL3Protocol.ArpHeader A) :
    CacheKept a loose now (ArpL3Protocol.receive addresses own now c arp).1 ∧
      ∀ [DecidableEq P] (p : P),
        (pendings (ArpL3Protocol.receive addresses own now c arp).1.cache).count p +
          (ArpL3Protocol.receive addresses own now c arp).2.count p =
            (pendings c.cache).count p := by
  unfold ArpL3Protocol.receive
  split
  · split
    · rename_i e found
      split
      · refine ⟨kept.assign found ⟨kept.start, fun waits => (by cases waits), fun some_ =>
          absurd rfl some_⟩, fun p => ?_⟩
        have counted := ArpCache.count_assign p
          { e.markAlive now arp.sourceHardwareAddress with pending := [] } found
        simpa using counted
      · exact ⟨kept, fun p => rfl⟩
    · exact ⟨kept, fun p => rfl⟩
  · exact ⟨kept, fun p => rfl⟩

/-! ### `Lookup` -/

theorem wait (kept : CacheKept a loose now c) {packet : P} {verdict : ArpVerdict A}
    (found : c.lookup to_ = some e)
    (here : ArpL3Protocol.wait a now c packet to_ e = some (c', verdict)) :
    CacheKept a loose now c' ∧ verdict = .pending ∧ ∀ [DecidableEq P] (p : P),
      (pendings c'.cache).count p = (pendings c.cache).count p + [packet].count p := by
  obtain ⟨e', marked, rest⟩ := bind_eq_some_iff.mp here
  obtain ⟨c'', started, made⟩ := bind_eq_some_iff.mp rest
  cases made
  unfold ArpEntry.markWaitReply at marked
  split at marked
  · rename_i test
    cases marked
    obtain ⟨kept', eq⟩ := kept.startWaitReplyTimer found rfl rfl started
    refine ⟨kept', rfl, fun p => ?_⟩
    have none_ : e.pending = [] := List.isEmpty_iff.mp test.2
    have counted := ArpCache.count_assign p
      { e with state := .waitReply, pending := [packet], lastSeen := now } found
    rw [eq]
    rw [none_, count_nil] at counted
    exact counted
  · cases marked

/-- What stays with the cache of a packet that is given to `Lookup`. -/
def stays (packet : P) : ArpVerdict A → List P
  | .pending => [packet]
  | _ => []

section

variable (kept : CacheKept a loose now c)
include kept

theorem lookup {packet : P} {verdict : ArpVerdict A}
    (here : ArpL3Protocol.lookup a now c packet to_ = some (c', verdict)) :
    CacheKept a loose now c' ∧ ∀ [DecidableEq P] (p : P),
      (pendings c'.cache).count p =
        (pendings c.cache).count p + (stays packet verdict).count p := by
  unfold ArpL3Protocol.lookup at here
  cases found : c.lookup to_ with
  | none =>
    rw [found] at here
    obtain ⟨c₁, added, waited⟩ := bind_eq_some_iff.mp here
    obtain ⟨kept₁, found₁, eq⟩ := kept.add added
    obtain ⟨kept', rfl, counted⟩ := kept₁.wait found₁ waited
    refine ⟨kept', fun p => ?_⟩
    rw [counted, eq, ArpCache.count_insertKey]
    rfl
  | some e =>
    rw [found] at here
    dsimp only at here
    have settled := kept.entry found
    split at here
    · split at here <;> first
        | cases here
        | (obtain ⟨kept', rfl, counted⟩ := kept.wait found here
           exact ⟨kept', counted⟩)
    · split at here
      · cases here
        exact ⟨kept, fun p => rfl⟩
      · cases here
        exact ⟨kept, fun p => rfl⟩
      · rename_i waits
        by_cases full : a.pendingQueueSize ≤ e.pending.length
        · simp only [ArpEntry.updateWaitReply, full] at here
          cases here
          exact ⟨kept, fun p => rfl⟩
        · simp only [ArpEntry.updateWaitReply, full, if_true, if_false] at here
          cases here
          refine ⟨kept.assign found ⟨settled.seen, settled.due, fun _ => Or.inl waits⟩, fun p => ?_⟩
          have counted := ArpCache.count_assign p
            { e with pending := e.pending ++ [packet] } found
          rw [count_append] at counted
          simp only [stays]
          omega
      · cases here
        exact ⟨kept, fun p => rfl⟩
      · cases here
        exact ⟨kept, fun p => rfl⟩

/-- No entry that waits is found expired, nor one that is permanent or static. -/
theorem expired (found : c.lookup to_ = some e)
    (late : e.isExpired a now = true) : e.state = .alive ∨ e.state = .dead := by
  obtain ⟨seen, due, -⟩ := kept.entry found
  have clock := kept.clock
  unfold ArpEntry.isExpired ArpEntry.getTimeout at late
  have late := of_decide_eq_true late
  cases state : e.state with
  | alive => exact Or.inl rfl
  | dead => exact Or.inr rfl
  | waitReply =>
    obtain ⟨t, timer, le⟩ := due state
    have soon := kept.due t timer
    rw [state] at late
    have early := Int.sub_left_le_of_le_add (Int.le_trans soon le)
    exact absurd late (Int.not_lt.mpr early)
  | permanent =>
    rw [state] at late
    exact absurd late (Int.not_lt.mpr (Int.le_trans (Int.sub_le_self now seen) clock))
  | staticAutogenerated =>
    rw [state] at late
    exact absurd late (Int.not_lt.mpr (Int.le_trans (Int.sub_le_self now seen) clock))

theorem wait_isSome (delay : 0 ≤ a.waitReplyTimeout) (packet : P)
    (found : c.lookup to_ = some e) (free : e.state = .alive ∨ e.state = .dead) :
    (ArpL3Protocol.wait a now c packet to_ e).isSome = true := by
  have none_ : e.pending = [] := by
    by_contra some_
    rcases free with state | state <;> simpa [state] using (kept.entry found).idle some_
  unfold ArpL3Protocol.wait ArpEntry.markWaitReply ArpCache.startWaitReplyTimer ArpCache.schedule
  simp only [free, none_, isEmpty_nil, and_self, if_true, Int.not_lt.mpr delay]
  split <;> rfl

theorem lookup_isSome (delay : 0 ≤ a.waitReplyTimeout) (packet : P)
    (to_ : Ipv4Address) : (ArpL3Protocol.lookup a now c packet to_).isSome = true := by
  unfold ArpL3Protocol.lookup
  cases found : c.lookup to_ with
  | none =>
    have added : c.add to_ = some { c with cache := ArpCache.insertKey to_ .create c.cache } := by
      unfold ArpCache.add
      rw [found]
      rfl
    obtain ⟨kept', found', -⟩ := kept.add added
    rw [added]
    exact kept'.wait_isSome delay packet found' (Or.inl rfl)
  | some e =>
    dsimp only
    split
    · rename_i late
      have free := kept.expired found late
      have waits := kept.wait_isSome delay packet found free
      split
      · exact waits
      · exact waits
      all_goals
        rename_i state
        rcases free with other | other <;> rw [other] at state <;> cases state
    · split
      · rfl
      · rfl
      · split <;> rfl
      · rfl
      · rfl

end

end CacheKept

/-! ## Runs -/

namespace ArpWorld

variable {d : ArpDevice A} {loose : Prop} {w w' : ArpWorld P A}

structure Kept (a : ArpAttributes) (loose : Prop) (w : ArpWorld P A) : Prop where
  cache : CacheKept a loose w.now w.cache
  counted : ∀ [DecidableEq P] (p : P),
    w.sent.count p + (pendings w.cache.cache).count p + w.dropped.count p + w.discarded.count p =
      w.given.count p

/-- `MarkPermanent` and `MarkAutoGenerated` come for entries that do not wait. -/
def Unwaiting (w : ArpWorld P A) : ArpEvent P A → Prop
  | .markPermanent to_ | .markAutoGenerated to_ =>
    ∀ e ∈ w.cache.lookup to_, e.state ≠ .waitReply
  | _ => True

variable {a : ArpAttributes}

theorem Kept.assigned (kept : Kept a loose w) {c : ArpCache P A} {to_ : Ipv4Address}
    {e e' : ArpEntry P A} (cache : CacheKept a loose w.now c) (found : w.cache.lookup to_ = some e)
    (same : e'.pending = e.pending) (eq : c.cache = ArpCache.assign to_ e' w.cache.cache) :
    Kept a loose { w with cache := c } := by
  refine ⟨cache, fun p => ?_⟩
  have before := kept.counted p
  have counted := ArpCache.count_assign p e' found
  rw [same, ← eq] at counted
  dsimp only
  omega

theorem Kept.lookup (kept : Kept a loose w) {c : ArpCache P A} {packet : P} {verdict : ArpVerdict A}
    {to_ : Ipv4Address}
    (here : ArpL3Protocol.lookup a w.now w.cache packet to_ = some (c, verdict)) :
    Kept a loose ({ w with cache := c }.placed packet verdict) := by
  obtain ⟨cache, counted⟩ := kept.cache.lookup here
  cases verdict with
  | found _ | drop =>
    refine ⟨cache, fun p => ?_⟩
    have before := kept.counted p
    have after := counted p
    simp only [CacheKept.stays, count_nil] at after
    simp only [placed, count_append]
    omega
  | pending =>
    refine ⟨cache, fun p => ?_⟩
    have before := kept.counted p
    have after := counted p
    simp only [CacheKept.stays] at after
    simp only [placed, count_append]
    omega

theorem Kept.step [DecidableEq A] (kept : Kept d.toArpAttributes loose w) (e : ArpEvent P A)
    (ok : loose ∨ Unwaiting w e) (here : w.step d e = some w') :
    Kept d.toArpAttributes loose w' := by
  cases e with
  | elapse delay =>
    unfold ArpWorld.step at here
    dsimp only at here
    split at here
    · rename_i test
      cases here
      exact ⟨kept.cache.elapse test.1 test.2.1 test.2.2, kept.counted⟩
    · cases here
  | lookup packet destination =>
    obtain ⟨⟨c, verdict⟩, found, made⟩ := bind_eq_some_iff.mp here
    cases made
    exact kept.lookup found
  | receive arp =>
    obtain ⟨cache, counted⟩ := kept.cache.receive d.addresses d.own arp
    unfold ArpWorld.step at here
    dsimp only at here
    generalize ArpL3Protocol.receive d.addresses d.own w.now w.cache arp = r at *
    obtain ⟨c, sent⟩ := r
    cases here
    refine ⟨cache, fun p => ?_⟩
    have before := kept.counted p
    have after := counted p
    dsimp only at after
    simp only [count_append]
    omega
  | handleWaitReplyTimeout =>
    unfold ArpWorld.step at here
    dsimp only at here
    split at here
    · obtain ⟨⟨c, dropped⟩, handled, made⟩ := bind_eq_some_iff.mp here
      cases made
      obtain ⟨cache, eq, rfl⟩ := kept.cache.handleWaitReplyTimeout handled
      refine ⟨cache, fun p => ?_⟩
      have before := kept.counted p
      have after := ArpCache.count_handled p d.toArpAttributes w.now w.cache.cache
      simp only [count_append, eq]
      omega
    · cases here
  | add to_ =>
    obtain ⟨c, added, made⟩ := bind_eq_some_iff.mp here
    cases made
    obtain ⟨cache, -, eq⟩ := kept.cache.add added
    refine ⟨cache, fun p => ?_⟩
    have before := kept.counted p
    have after := ArpCache.count_insertKey p to_ .create w.cache.cache
    rw [← eq] at after
    exact after.symm ▸ before
  | setMacAddress to_ macAddress =>
    obtain ⟨c, set, made⟩ := bind_eq_some_iff.mp here
    cases made
    obtain ⟨cache, e, e', found, same, eq⟩ := kept.cache.setMacAddress set
    exact kept.assigned cache found same eq
  | markPermanent to_ | markAutoGenerated to_ =>
    obtain ⟨c, marked, made⟩ := bind_eq_some_iff.mp here
    cases made
    obtain ⟨e, found, rest⟩ := bind_eq_some_iff.mp marked
    obtain ⟨e', static, made'⟩ := bind_eq_some_iff.mp rest
    cases made'
    obtain ⟨cache, same⟩ := kept.cache.markStatic (by simp) found
      (ok.imp_right fun free => free e found) static
    exact kept.assigned cache found same rfl
  | remove to_ =>
    obtain ⟨⟨c, discarded⟩, removed, made⟩ := bind_eq_some_iff.mp here
    cases made
    obtain ⟨cache, e, found, rfl, eq⟩ := kept.cache.remove removed
    refine ⟨cache, fun p => ?_⟩
    have before := kept.counted p
    have after := ArpCache.count_eraseKey p found
    simp only [count_append, eq]
    omega
  | removeAutoGeneratedEntries =>
    cases here
    refine ⟨kept.cache.removeAutoGeneratedEntries, fun p => ?_⟩
    have before := kept.counted p
    have after := ArpCache.count_removed p w.cache.cache
    simp only [count_append]
    unfold pendings at after before ⊢
    omega
  | flush =>
    cases here
    refine ⟨kept.cache.flush, fun p => ?_⟩
    have before := kept.counted p
    simp only [ArpCache.create, count_append]
    unfold pendings at before ⊢
    simp only [flatMap_nil, count_nil]
    omega

theorem Kept.run [DecidableEq A] {allowed : ArpWorld P A → ArpEvent P A → Prop}
    (run : ArpRun d allowed w) (ok : ∀ w e, allowed w e → loose ∨ Unwaiting w e) :
    Kept d.toArpAttributes loose w := by
  induction run with
  | start =>
    exact ⟨CacheKept.create d.toArpAttributes loose, fun p => by simp [create, ArpCache.create,
      pendings]⟩
  | step _ e allowed here ih => exact ih.step e (ok _ e allowed) here

theorem Kept.conserved (kept : Kept a loose w) :
    (w.sent ++ pendings w.cache.cache ++ w.dropped ++ w.discarded).Perm w.given := by
  classical
  rw [perm_iff_count]
  intro p
  simp only [count_append]
  exact kept.counted p

theorem Kept.timed (kept : Kept a loose w) :
    ((∃ x ∈ w.cache.cache, x.2.state = .waitReply) → w.cache.waitReplyTimer.isSome = true) ∧
    (∀ (to_ : Ipv4Address) (e : ArpEntry P A), w.cache.lookup to_ = some e →
      e.isExpired a w.now = true → e.state ≠ .waitReply) := by
  constructor
  · rintro ⟨x, mem, waits⟩
    obtain ⟨t, timer, -⟩ := (kept.cache.entries x mem).due waits
    exact isSome_iff_exists.mpr ⟨t, timer⟩
  · intro to_ e found late waits
    rcases kept.cache.expired found late with other | other <;> rw [other] at waits <;> cases waits

theorem Kept.resolves (kept : Kept a False w) : Resolves a w where
  timer := kept.timed.1
  unexpired := kept.timed.2
  lookups := fun delay packet destination =>
    kept.cache.lookup_isSome delay packet destination
  pending := fun x mem some_ => by simpa using (kept.cache.entries x mem).idle some_
  conserved := kept.conserved

end ArpWorld

/-- **ARP.** In a run that makes no entry permanent or static while it waits, resolution is
as it should be. In any run at all only the place of the pending packets may be wrong. -/
theorem arp_resolves [DecidableEq A] (d : ArpDevice A) :
    (∀ w : ArpWorld P A, ArpRun d ArpWorld.Unwaiting w → Resolves d.toArpAttributes w) ∧
    ∀ w : ArpWorld P A, ArpRun d (fun _ _ => True) w →
      ((∃ x ∈ w.cache.cache, x.2.state = .waitReply) → w.cache.waitReplyTimer.isSome = true) ∧
      (∀ (to_ : Ipv4Address) (e : ArpEntry P A), w.cache.lookup to_ = some e →
        e.isExpired d.toArpAttributes w.now = true → e.state ≠ .waitReply) ∧
      (w.sent ++ pendings w.cache.cache ++ w.dropped ++ w.discarded).Perm w.given := by
  constructor
  · intro w run
    exact (ArpWorld.Kept.run run fun w e ok => Or.inr ok).resolves
  · intro w run
    have kept := @ArpWorld.Kept.run P A d True w _ _ run fun w e _ => Or.inl trivial
    exact ⟨kept.timed.1, kept.timed.2, kept.conserved⟩

/-- Timeouts of two and one seconds. -/
def arpDevice : ArpDevice Nat := ⟨⟨2000000000, 2000000000, 1000000000, 3, 3⟩, [1], 7⟩

/-- A packet waits for an address that was known, because its entry has expired. -/
def waitsAgain : ArpWorld Char Nat :=
  ⟨3000000000, ⟨[(2, ⟨.waitReply, 3000000000, some 9, ['b'], 0⟩)], some 4000000000⟩,
    ['a', 'b'], ['a'], [], []⟩

theorem waitsAgain_run {allowed : ArpWorld Char Nat → ArpEvent Char Nat → Prop}
    (ok : ∀ w e, ArpWorld.Unwaiting w e → allowed w e) : ArpRun arpDevice allowed waitsAgain := by
  have first := (@ArpRun.start Char Nat _ arpDevice allowed).step (.lookup 'a' 2)
    (ok _ _ trivial) rfl
  have second := first.step (.receive ⟨false, 9, 2, 7, 1⟩) (ok _ _ trivial) rfl
  have third := second.step (.elapse 1000000000) (ok _ _ trivial) rfl
  have fourth := third.step .handleWaitReplyTimeout (ok _ _ trivial) rfl
  have fifth := fourth.step (.elapse 2000000000) (ok _ _ trivial) rfl
  exact fifth.step (.lookup 'b' 2) (ok _ _ trivial) rfl

theorem waitsAgain_resolves : Resolves arpDevice.toArpAttributes waitsAgain ∧
    (waitsAgain.sent ++ pendings waitsAgain.cache.cache ++ waitsAgain.dropped ++
      waitsAgain.discarded).Perm waitsAgain.given :=
  ⟨(arp_resolves arpDevice).1 waitsAgain (waitsAgain_run fun _ _ ok => ok),
    ((arp_resolves arpDevice).2 waitsAgain (waitsAgain_run fun _ _ _ => trivial)).2.2⟩

/-- The entry is made permanent, and the packet stays with it. -/
theorem permanent_pending : ¬ ∀ w : ArpWorld Char Nat, ArpRun arpDevice (fun _ _ => True) w →
    Resolves arpDevice.toArpAttributes w := by
  intro all
  have run := (@waitsAgain_run (fun _ _ => True) fun _ _ _ => trivial).step
    (.markPermanent 2) trivial rfl
  have state := (all _ run).pending
    (2, ⟨.permanent, 3000000000, some 9, ['b'], 0⟩) (mem_singleton.mpr rfl) (by simp)
  cases state

end Ns3.Internet
