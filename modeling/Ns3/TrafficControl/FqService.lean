import Ns3.TrafficControl.FqOverload

/-!
# Service of the flows

What holds of a disc of flows after every enqueue and dequeue: the lists follow
the status of the flows, the disc is not over its maximum, and a dequeue finds
a packet as long as there is one.
-/

namespace Ns3.TrafficControl.FqQueueDisc

open Option

variable {S : Type} (disc : FlowDisc S)

/-- No packet was enqueued. The divisors of the hash are positive. -/
structure Start (s : FqQueueDisc S) : Prop where
  classes : s.classes = []
  flowsIndices : s.flowsIndices = fun _ => none
  newFlows : s.newFlows = []
  oldFlows : s.oldFlows = []
  divisors : 0 < s.flows ∧ 0 < s.setWays

/-- A packet that is enqueued is below 2 GiB, and when there are too many the fat flow has one. -/
def Allowed (s : FqQueueDisc S) : Event → Prop
  | .enqueue now (some flowHash) item => item.size < 2 ^ 31 ∧
      ∀ stored ∈ s.enqueueFlow disc now flowHash item,
        stored.maxSize < stored.nPackets disc % 2 ^ 32 → FatHasPacket disc stored
  | .enqueue _ none _ => True
  | .dequeue _ _ => True

instance (s : FqQueueDisc S) : (e : Event) → Decidable (Allowed disc s e)
  | .enqueue now (some flowHash) item => inferInstanceAs (Decidable (_ ∧
      ∀ stored ∈ s.enqueueFlow disc now flowHash item, _))
  | .enqueue _ none _ => instDecidableTrue
  | .dequeue _ _ => instDecidableTrue

/-- What holds after every event. -/
structure Served (s : FqQueueDisc S) : Prop where
  valid : s.Valid disc
  limits : s.Limits
  bounded : s.nPackets disc ≤ s.maxSize

variable {disc} {s : FqQueueDisc S}

theorem Served.of_start (start : Start s) (limits : s.Limits) : Served disc s := by
  have none_stored : s.nPackets disc = 0 := by
    unfold nPackets
    rw [start.classes]
    rfl
  constructor
  · constructor
    · intro place flow is
      rw [start.classes] at is
      cases is
    · intro place flow is
      rw [start.classes] at is
      cases is
    · intro place listed
      rw [start.newFlows, start.oldFlows] at listed
      exact absurd listed (Nat.lt_irrefl 0)
    · intro flow mem
      rw [start.classes] at mem
      cases mem
    · intro h place is
      rw [start.flowsIndices] at is
      cases is
  · exact limits
  · rw [none_stored]
    exact Nat.zero_le _

/-- An allowed enqueue is done, and drops what is over the maximum. -/
theorem Served.doEnqueue (served : Served disc s) {now : Int} {flowHash : Option Nat}
    {item : QueueDiscItem} (allowed : Allowed disc s (.enqueue now flowHash item)) :
    ∃ accepted s', s.doEnqueue disc now flowHash item = some (accepted, s') ∧ Served disc s' := by
  unfold FqQueueDisc.doEnqueue
  cases flowHash with
  | none => exact ⟨false, s, rfl, served⟩
  | some flowHash =>
    obtain ⟨small, fat⟩ := allowed
    obtain ⟨stored, here, stores⟩ :=
      enqueueFlow_stores served.valid served.limits now flowHash small
    have fewer := stores.fewer
    have bounded := served.bounded
    have limits : stored.Limits := by
      unfold Limits
      rw [stores.quantum, stores.maxSize]
      exact served.limits
    have counted : stored.nPackets disc % 2 ^ 32 = stored.nPackets disc := by
      have := served.limits.2.2
      exact Nat.mod_eq_of_lt (by omega)
    have fat := fat stored here
    dsimp only
    rw [here, bind_eq_bind, bind_some]
    rw [counted] at fat ⊢
    by_cases exceeded : stored.maxSize < stored.nPackets disc
    · obtain ⟨s', dropped, keeps, less⟩ := fqDrop_drops stores.valid stores.classes (fat exceeded)
      rw [if_pos exceeded, dropped, bind_some]
      have same := keeps.maxSize
      have before := stores.maxSize
      exact ⟨true, s', rfl, keeps.valid, keeps.limits limits, by omega⟩
    · rw [if_neg exceeded]
      exact ⟨true, stored, rfl, stores.valid, limits, Nat.le_of_not_lt exceeded⟩

theorem Served.doDequeue (served : Served disc s) {now : Int} {rounds : Nat}
    {item : Option QueueDiscItem} {s' : FqQueueDisc S}
    (h : FqQueueDisc.doDequeue disc now rounds s = some (item, s')) :
    Served disc s' ∧ (item = none → s'.nPackets disc = 0) := by
  obtain ⟨keeps, last⟩ := doDequeue_keeps now served.valid served.limits h
  have bounded := Nat.le_trans keeps.fewer served.bounded
  rw [← keeps.maxSize] at bounded
  exact ⟨⟨keeps.valid, keeps.limits served.limits, bounded⟩, last⟩

theorem Served.step (served : Served disc s) {e : Event} (allowed : Allowed disc s e)
    {s' : FqQueueDisc S} (h : s.step disc e = some s') : Served disc s' := by
  cases e with
  | enqueue now flowHash item =>
    obtain ⟨accepted, after, here, next⟩ := served.doEnqueue allowed
    change (s.doEnqueue disc now flowHash item).map Prod.snd = some s' at h
    rw [here] at h
    cases h
    exact next
  | dequeue now rounds =>
    obtain ⟨⟨item, after⟩, here, rfl⟩ := map_eq_some_iff.mp h
    exact (served.doDequeue here).1

/-- Blue that never drops. -/
def noBlue : Blue Unit where
  increase _ := ()
  decrease _ := ()
  nonzero _ := false
  hits _ _ := false

/-- The queue disc of a flow, with the default times of Cobalt. -/
def cobalt : FlowDisc (Cobalt Unit) :=
  Cobalt.flowDisc noBlue 10240 {
    queue := []
    count := 0
    dropNext := 0
    dropping := false
    recInvSqrt := 2 ^ 32 - 1
    recInvSqrtCache := []
    interval := 100000000
    target := 5000000
    useEcn := false
    ceThreshold := 0
    useL4s := false
    blueThreshold := 400000000
    uv := 0
    lastUpdateTimeBlue := 0
    pDrop := () } rfl

/-- Room for two packets. -/
def small (quantum : Nat) : FqQueueDisc (Cobalt Unit) where
  classes := []
  flowsIndices _ := none
  tags _ := none
  newFlows := []
  oldFlows := []
  quantum
  maxSize := 2
  flows := 1024
  dropBatchSize := 64
  enableSetAssociativeHash := false
  setWays := 8

theorem small_start (quantum : Nat) : Start (small quantum) :=
  ⟨rfl, rfl, rfl, rfl, Nat.succ_pos _, Nat.succ_pos _⟩

/-- A packet of a flow. -/
def packet (flowHash id size : Nat) : Event := .enqueue 0 (some flowHash) ⟨id, size, 0, none, false⟩

/-- Three packets of two flows, and a dequeue. -/
def threePackets : List Event :=
  [packet 1 0 100, packet 2 1 1500, packet 2 2 1500, .dequeue 1000 3]

/-- The flow that was created first is empty, and packets without bytes are stored. -/
def withoutBytes : List Event := [packet 1 0 100, .dequeue 0 1, packet 2 1 0, packet 2 2 0]

end Ns3.TrafficControl.FqQueueDisc
