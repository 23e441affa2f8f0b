import Ns3.TrafficControl.CobaltQueueDisc

/-!
# `TbfQueueDisc`

A token bucket over one child. The watchdog that wakes the queue disc is left
out, and the tokens earned at a rate, a rounded `double`, are a parameter.
-/

namespace Ns3.TrafficControl

/-- A queue disc as its parent uses it. -/
structure Child (C : Type) where
  peek : Int → C → Option QueueDiscItem × C
  dequeue : Int → C → Option QueueDiscItem × C

structure TbfQueueDisc (C : Type) where
  child : C
  burst : Nat
  mtu : Nat
  rate : Nat
  peakRate : Nat
  btokens : Nat
  ptokens : Nat
  timeCheckPoint : Int

namespace TbfQueueDisc

variable {C : Type} (ops : Child C) (earned : Nat → Int → Int) (now : Int) (q : TbfQueueDisc C)

/-- The tokens of the first bucket. -/
def bucket : Int := min (q.btokens + earned q.rate (now - q.timeCheckPoint)) q.burst

/-- The tokens of the second bucket, when there is a peak rate. -/
def peakBucket : Int := min (q.ptokens + earned q.peakRate (now - q.timeCheckPoint)) q.mtu

/-- `DoDequeue` -/
def doDequeue : Option QueueDiscItem × TbfQueueDisc C :=
  let (itemPeek, child) := ops.peek now q.child
  let q := { q with child }
  match itemPeek with
  | none => (none, q)
  | some itemPeek =>
    let ptoks := if 0 < q.peakRate then peakBucket earned now q - itemPeek.size else 0
    let btoks := bucket earned now q - itemPeek.size
    if 0 ≤ btoks ∧ 0 ≤ ptoks then
      let (item, child) := ops.dequeue now q.child
      match item with
      | none => (none, { q with child })
      | some item => (some item, { q with
          child, timeCheckPoint := now, btokens := btoks.toNat, ptokens := ptoks.toNat })
    else (none, q)

/-- The packet that is released takes its size from buckets that hold as much. -/
def Pays : Prop :=
  ∀ item q', doDequeue ops earned now q = (some item, q') →
    bucket earned now q - item.size = q'.btokens ∧
    (0 < q.peakRate → peakBucket earned now q - item.size = q'.ptokens)

variable {ops earned now q}

theorem pays_of_predicts (predicts : Predicts (ops.peek now) (ops.dequeue now) q.child) :
    Pays ops earned now q := by
  intro item q' done
  unfold doDequeue at done
  dsimp only [peakBucket] at done
  cases shown : (ops.peek now q.child).1 with
  | none =>
    rw [shown] at done
    cases done
  | some itemPeek =>
    rw [shown] at done
    rw [predicts itemPeek shown] at done
    by_cases peak : 0 < q.peakRate
    · simp only [if_pos peak] at done
      split at done
      case isFalse => cases done
      case isTrue enough =>
        cases done
        exact ⟨(Int.toNat_of_nonneg enough.1).symm, fun _ => (Int.toNat_of_nonneg enough.2).symm⟩
    · simp only [if_neg peak] at done
      split at done
      case isFalse => cases done
      case isTrue enough =>
        cases done
        exact ⟨(Int.toNat_of_nonneg enough.1).symm, fun more => absurd more peak⟩

end TbfQueueDisc

/-- A child that uses the default peek, as `CoDelQueueDisc` does. -/
def defaultChild {S : Type} (d : Discipline S) : Child (QueueDisc S) where
  peek := QueueDisc.doPeek d
  dequeue := QueueDisc.dequeue d

def cobaltChild {P : Type} (blue : Blue P) : Child (QueueDisc (Cobalt P)) where
  peek _ := Cobalt.doPeek
  dequeue := QueueDisc.dequeue (Cobalt.discipline blue)

/-- **Peek predicts dequeue** with the default peek always, and with the peek of Cobalt exactly
when its head is kept; a token bucket over a child that predicts pays for what it releases. -/
theorem peek_predicts_dequeue (now : Int) : (∀ {S : Type} (d : Discipline S) (child : QueueDisc S),
      Predicts ((defaultChild d).peek now) ((defaultChild d).dequeue now) child) ∧
    (∀ {P : Type} (blue : Blue P) (child : QueueDisc (Cobalt P)), child.state.queue.Nodup →
      (Predicts ((cobaltChild blue).peek now) ((cobaltChild blue).dequeue now) child ↔
        Cobalt.KeepsHead blue now child)) ∧
    ∀ {C : Type} (ops : Child C) (earned : Nat → Int → Int) (q : TbfQueueDisc C),
      Predicts (ops.peek now) (ops.dequeue now) q.child → TbfQueueDisc.Pays ops earned now q := by
  refine ⟨?_, ?_, ?_⟩
  · intro S d child
    exact doPeek_predicts d now child
  · intro P blue child distinct
    exact Cobalt.doPeek_predicts_iff blue now distinct
  · intro C ops earned q predicts
    exact TbfQueueDisc.pays_of_predicts predicts

/-- Blue that never drops. -/
def noBlue : Blue Unit := ⟨id, id, fun _ => false, fun _ _ => false⟩

/-- A small packet waits in front of a large one since time zero. -/
def waiting (count : Nat) (dropNext : Int) : QueueDisc (Cobalt Unit) where
  state := {
    queue := [⟨1, 100, 0, none, false⟩, ⟨2, 1500, 0, none, false⟩]
    count, dropNext, dropping := true
    recInvSqrt := 2 ^ 32 - 1, recInvSqrtCache := List.replicate 16 (2 ^ 32 - 1)
    interval := 100000000, target := 5000000, useEcn := false, ceThreshold := 2 ^ 62
    useL4s := false, blueThreshold := 400000000, uv := 0, lastUpdateTimeBlue := 0, pDrop := () }

/-- A bucket with the tokens for one small packet. -/
def smallBucket (child : QueueDisc (Cobalt Unit)) : TbfQueueDisc (QueueDisc (Cobalt Unit)) :=
  ⟨child, 2000, 0, 0, 0, 100, 0, 10000000⟩

/-- Before its next drop Cobalt keeps the head, and the bucket pays for it. -/
theorem head_paid : Predicts (Cobalt.doPeek) (QueueDisc.dequeue (Cobalt.discipline noBlue) 10000000)
      (waiting 1 20000000) ∧
    TbfQueueDisc.Pays (cobaltChild noBlue) (fun _ _ => 0) 10000000
      (smallBucket (waiting 1 20000000)) := by
  obtain ⟨-, cobalt, tbf⟩ := peek_predicts_dequeue 10000000
  have predicts := (cobalt noBlue (waiting 1 20000000) (by decide)).mpr (by
    intro item rest is
    cases is
    rfl)
  exact ⟨predicts, tbf (cobaltChild noBlue) _ _ predicts⟩

/-- A drop is due: the small packet is peeked, the large one is dequeued, and the bucket
releases it for the price of the small one. -/
theorem head_dropped :
    ¬ Predicts (Cobalt.doPeek) (QueueDisc.dequeue (Cobalt.discipline noBlue) 10000000)
      (waiting 1 9000000) ∧
    ¬ TbfQueueDisc.Pays (cobaltChild noBlue) (fun _ _ => 0) 10000000
      (smallBucket (waiting 1 9000000)) := by
  constructor
  · intro predicts
    have next := predicts _ rfl
    revert next
    decide
  · intro pays
    have paid := (pays ⟨2, 1500, 0, none, false⟩ _ (by rfl)).1
    revert paid
    decide

end Ns3.TrafficControl
