import Mathlib
import Ns3.TrafficControl.QueueDiscTree

/-!
# `CobaltQueueDisc`

The drop decision of CoDel and Blue. The arithmetic on Blue's drop probability,
a `double`, and the values of its random variable are a parameter.
-/

namespace Ns3.TrafficControl

/-- Blue's arithmetic. The random variable is known by the number of its values that were
taken. -/
structure Blue (P : Type) where
  /-- `std::min(m_pDrop + m_increment, 1.0)` -/
  increase : P → P
  /-- `std::max(m_pDrop - m_decrement, 0.0)` -/
  decrease : P → P
  nonzero : P → Bool
  /-- Whether the next value is below the probability. -/
  hits : Nat → P → Bool

structure Cobalt (P : Type) where
  /-- The internal queue, its head first. -/
  queue : List QueueDiscItem
  count : Nat
  dropNext : Int
  dropping : Bool
  recInvSqrt : Nat
  recInvSqrtCache : List Nat
  interval : Int
  target : Int
  useEcn : Bool
  ceThreshold : Int
  useL4s : Bool
  blueThreshold : Int
  uv : Nat
  lastUpdateTimeBlue : Nat
  pDrop : P

/-- `ReciprocalDivide` of `uint32_t` arguments. -/
def reciprocalDivide (a r : Nat) : Nat := a * r / 2 ^ 32 % 2 ^ 32

/-- `NewtonStep` -/
def newtonStep (count invsqrt : Nat) : Nat :=
  let invsqrt2 := invsqrt * invsqrt / 2 ^ 32
  let val := (3 * 2 ^ 32 + 2 ^ 64 - count * invsqrt2 % 2 ^ 64) % 2 ^ 64 / 4
  val * invsqrt % 2 ^ 64 / 2 ^ 31 % 2 ^ 32

namespace Cobalt

variable {P : Type} (blue : Blue P) (now : Int) (s : Cobalt P)

def invSqrt : Cobalt P :=
  { s with recInvSqrt := (s.recInvSqrtCache[s.count]?).getD (newtonStep s.count s.recInvSqrt) }

def controlLaw (t : Int) : Int :=
  t + reciprocalDivide (s.interval % 2 ^ 32).toNat s.recInvSqrt

/-- Whether a drop is due: `m_count && schedule >= 0`. -/
def nextDue : Bool := s.count ≠ 0 ∧ 0 ≤ now - s.dropNext

/-- The loop that lets drops that are due pass. -/
def passDue : Nat → Cobalt P → Cobalt P
  | 0, s => s
  | rounds + 1, s =>
    if s.nextDue now then
      let s := invSqrt { s with count := s.count - 1 }
      passDue rounds { s with dropNext := s.controlLaw s.dropNext }
    else s

/-- The state of CoDel after the target was compared with the sojourn time. -/
def compareTarget (overTarget : Bool) : Cobalt P :=
  if overTarget then
    { s with
      dropping := true
      dropNext := if s.dropping then s.dropNext else s.controlLaw now
      count := if s.count = 0 then 1 else s.count }
  else { s with dropping := false }

/-- The decision of CoDel. -/
def codelShouldDrop (item : QueueDiscItem) : Bool × Cobalt P :=
  let due := s.nextDue now
  let s := s.compareTarget now (now - item.timeStamp > s.target)
  if due ∧ s.dropping then
    let s := invSqrt { s with count := max s.count ((s.count + 1) % 2 ^ 32) }
    (!(s.useEcn && item.mark), { s with dropNext := s.controlLaw s.dropNext })
  else if due then
    -- the loop decides on the count and the time of the next drop as they are now
    let s := invSqrt { s with count := s.count - 1 }
    let s := { s with dropNext := s.controlLaw s.dropNext }
    (false, passDue now s.count s)
  else (false, s)

/-- Blue raises the probability at most once in each target time. -/
def updateBlue (sojournTime : Int) : Cobalt P :=
  if sojournTime > s.blueThreshold ∧ now - s.lastUpdateTimeBlue > s.target then
    { s with pDrop := blue.increase s.pDrop, lastUpdateTimeBlue := (now % 2 ^ 32).toNat }
  else s

/-- The decision of Blue. -/
def blueShouldDrop : Bool × Cobalt P :=
  if blue.nonzero s.pDrop then (blue.hits s.uv s.pDrop, { s with uv := s.uv + 1 })
  else (false, s)

/-- `CobaltShouldDrop` -/
def shouldDrop (item : QueueDiscItem) : Bool × Cobalt P :=
  let sojournTime := now - item.timeStamp
  if s.useL4s ∧ item.tosByte.any fun tos => tos % 4 = 1 ∨ tos % 4 = 3 then (false, s)
  else
    let start := now - s.dropNext
    let due := s.nextDue now
    let (codel, s) := s.codelShouldDrop now item
    let schedule := if due then now - s.dropNext else start
    let (hit, s) := (s.updateBlue blue now sojournTime).blueShouldDrop blue
    let drop := codel || hit
    if s.count = 0 then (drop, { s with dropNext := now + s.interval })
    else if schedule > 0 ∧ !drop then (drop, { s with dropNext := now })
    else (drop, s)

/-- `CobaltQueueEmpty` -/
def queueEmpty : Cobalt P :=
  let s :=
    if blue.nonzero s.pDrop ∧ now - s.lastUpdateTimeBlue > s.target then
      { s with pDrop := blue.decrease s.pDrop, lastUpdateTimeBlue := (now % 2 ^ 32).toNat }
    else s
  let s := { s with dropping := false }
  if s.count ≠ 0 ∧ 0 ≤ now - s.dropNext then
    let s := invSqrt { s with count := s.count - 1 }
    { s with dropNext := s.controlLaw s.dropNext }
  else s

/-- The loop of `DoDequeue` over the internal queue. -/
def dequeueFrom : List QueueDiscItem → Cobalt P → Option QueueDiscItem × Cobalt P
  | [], s => (none, queueEmpty blue now { s with queue := [], dropping := false })
  | item :: rest, s =>
    let (drop, s) := shouldDrop blue now { s with queue := rest } item
    if drop then dequeueFrom rest s else (some item, s)

/-- `CobaltQueueDisc`. Its statistics are left out. -/
def discipline : Discipline (Cobalt P) where
  doDequeue _ now s := dequeueFrom blue now s.queue s
  packetDequeued _ s := s

/-- The `DoPeek` of `CobaltQueueDisc`. -/
def doPeek (q : QueueDisc (Cobalt P)) : Option QueueDiscItem × QueueDisc (Cobalt P) :=
  (q.state.queue.head?, q)

/-- The first packet of the queue is the one that is held, or none is held and it is not
dropped. -/
def KeepsHead (q : QueueDisc (Cobalt P)) : Prop :=
  ∀ item rest, q.state.queue = item :: rest →
    match q.requeued with
    | some held => held = item
    | none => (shouldDrop blue now { q.state with queue := rest } item).1 = false

theorem dequeueFrom_mem {items : List QueueDiscItem} {s : Cobalt P} {item : QueueDiscItem}
    (h : (dequeueFrom blue now items s).1 = some item) : item ∈ items := by
  induction items generalizing s with
  | nil => cases h
  | cons first rest ih =>
    unfold dequeueFrom at h
    dsimp only at h
    split at h
    · exact List.mem_cons_of_mem _ (ih h)
    · cases h
      exact List.mem_cons_self

theorem doPeek_predicts_iff {q : QueueDisc (Cobalt P)} (distinct : q.state.queue.Nodup) :
    Predicts doPeek (QueueDisc.dequeue (discipline blue) now) q ↔ KeepsHead blue now q := by
  unfold Predicts KeepsHead doPeek
  constructor
  · intro predicts item rest is
    have next := predicts item (by rw [is]; rfl)
    unfold QueueDisc.dequeue at next
    cases held : q.requeued with
    | some other =>
      rw [held] at next
      dsimp only at next ⊢
      split at next <;> exact Option.some.inj next
    | none =>
      rw [held] at next
      dsimp only [discipline] at next ⊢
      rw [is, dequeueFrom] at next
      dsimp only at next
      rw [is, List.nodup_cons] at distinct
      split at next
      case isTrue =>
        exact absurd (dequeueFrom_mem blue now next) distinct.1
      case isFalse kept => exact Bool.eq_false_iff.mpr kept
  · intro keeps item shown
    obtain ⟨rest, is⟩ : ∃ rest, q.state.queue = item :: rest := by
      cases queue : q.state.queue with
      | nil =>
        rw [queue] at shown
        cases shown
      | cons first rest =>
        rw [queue] at shown
        cases shown
        exact ⟨rest, rfl⟩
    have kept := keeps item rest is
    unfold QueueDisc.dequeue
    cases held : q.requeued with
    | some other =>
      rw [held] at kept
      dsimp only at kept ⊢
      split <;> exact congrArg some kept
    | none =>
      rw [held] at kept
      dsimp only [discipline] at kept ⊢
      rw [is, dequeueFrom]
      dsimp only
      simp [kept]

end Cobalt

end Ns3.TrafficControl
