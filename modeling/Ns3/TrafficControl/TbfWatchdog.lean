import Ns3.Core.Int64x64Invert
import Ns3.Library.Machine
import Ns3.Library.TokenBucket
import Ns3.TrafficControl.TbfQueueDisc

/-!
# The watchdog of `TbfQueueDisc`

`DoDequeue` with its two buckets filled for the time since the checkpoint, and with the event
that wakes the queue disc when a packet is blocked. The product of the time and the rate is
exact; a failed assertion, or a value that does not fit in an `int64_t`, has no result.
-/

namespace Ns3.TrafficControl

open Ns3.Core TokenBucket Option BitVec Int

/-- `round` of a fraction: to the nearest, halfway cases away from zero. -/
def round (numerator : Int) (denominator : Nat) : Int :=
  if 0 ≤ numerator then (2 * numerator + denominator) / (2 * denominator)
  else -((-(2 * numerator) + denominator) / (2 * denominator))

/-- `round(delta * (rate / 8))`, for a time in nanoseconds. -/
def accrued (bitRate : Nat) (delta : Int) : Int := round (delta * (bitRate / 8 : Nat)) 1000000000

/-- A `double` as an `int64_t`. -/
def toInt64 (value : Int) : Option Int :=
  if -2 ^ 63 ≤ value ∧ value < 2 ^ 63 then some value else none

/-- A value as a `uint32_t`. -/
def toUint32 (value : Int) : Nat := (value % 2 ^ 32).toNat

/-- `int64x64_t::Round` -/
def roundQ (v : BitVec 128) : BitVec 64 :=
  let negative := v.slt 0
  let value := (if negative then -v else v) + Native.ofParts 0 ((1 : BitVec 64) <<< 63)
  let retval := Native.getHigh value
  if negative then -retval else retval

/-- `DataRate::CalculateBytesTxTime`, in nanoseconds. -/
def calculateBytesTxTime (bitRate : Nat) (bytes : Int) : Option Int := do
  let bits := toUint32 (toUint32 bytes * 8)
  let seconds ← Native.div 129 (Native.ofInteger (.ofNat 64 bits))
    (Native.ofInteger (.ofNat 64 bitRate))
  let value ← Native.mul seconds (Native.ofInteger 1000000000)
  return (roundQ value).toInt

/-- The queue disc with the time its wake-up event is due, until `m_id` expires. -/
structure WatchedTbf (C : Type) where
  disc : TbfQueueDisc C
  wakeup : Option Int := none

namespace TbfQueueDisc

/-- The tokens in a bucket after the packet, if it were dequeued. -/
def tokensAfter (bucket size rate : Nat) (delta : Int) (pktSize : Nat) : Option Int := do
  let toks ← toInt64 (bucket + accrued rate delta)
  let toks := if toks > size then (size : Int) else toks
  return toks - pktSize

def requiredDelayTime (rate peakRate : Nat) (btoks ptoks : Int) : Option Int :=
  if peakRate = 0 then
    if btoks < 0 then calculateBytesTxTime rate (-btoks) else none
  else if btoks < 0 ∧ 0 ≤ ptoks then calculateBytesTxTime rate (-btoks)
  else if 0 ≤ btoks ∧ ptoks < 0 then calculateBytesTxTime peakRate (-ptoks)
  else do
    let first ← calculateBytesTxTime rate (-btoks)
    let second ← calculateBytesTxTime peakRate (-ptoks)
    return max first second

end TbfQueueDisc

namespace WatchedTbf

open TbfQueueDisc

variable {C : Type} (ops : Child C) (now : Int) (q : WatchedTbf C)

/-- The setup of the watchdog timer. -/
def watch (btoks ptoks : Int) : Option (WatchedTbf C) :=
  if q.wakeup.isSome then some q
  else if q.disc.rate = 0 then none
  else do
    let delay ← requiredDelayTime q.disc.rate q.disc.peakRate btoks ptoks
    if delay < 0 then none else some { q with wakeup := some (now + delay) }

/-- `DoDequeue` -/
def doDequeue : Option (Option QueueDiscItem × WatchedTbf C) :=
  let (itemPeek, child) := ops.peek now q.disc.child
  let q := { q with disc := { q.disc with child } }
  match itemPeek with
  | none => some (none, q)
  | some itemPeek => do
    let delta := now - q.disc.timeCheckPoint
    let ptoks ← (if 0 < q.disc.peakRate then
        tokensAfter q.disc.ptokens q.disc.mtu q.disc.peakRate delta itemPeek.size
      else some 0 : Option Int)
    let btoks ← tokensAfter q.disc.btokens q.disc.burst q.disc.rate delta itemPeek.size
    if 0 ≤ lor btoks ptoks then
      let (item, child) := ops.dequeue now q.disc.child
      match item with
      | none => some (none, { q with disc := { q.disc with child } })
      | some item => some (some item, { q with disc := { q.disc with
          child, timeCheckPoint := now, btokens := toUint32 btoks, ptokens := toUint32 ptoks } })
    else do
      let q ← watch now q btoks ptoks
      return (none, q)

end WatchedTbf

/-! ## The arithmetic -/

theorem round_nonneg {numerator : Int} (nonneg : 0 ≤ numerator) (denominator : Nat) :
    0 ≤ round numerator denominator := by
  unfold round
  rw [if_pos nonneg]
  exact ediv_nonneg (by omega) (by omega)

theorem round_le (numerator : Int) {denominator : Nat} (positive : 0 < denominator) :
    2 * denominator * round numerator denominator ≤ 2 * numerator + denominator := by
  have apart : (0 : Int) < 2 * denominator := by omega
  unfold round
  split
  case isTrue nonneg => exact mul_ediv_self_le (ne_of_gt apart)
  case isFalse negative =>
    have below := lt_mul_ediv_self_add (x := -(2 * numerator) + denominator) apart
    rw [mul_neg]
    omega

theorem accrued_nonneg (bitRate : Nat) {delta : Int} (nonneg : 0 ≤ delta) :
    0 ≤ accrued bitRate delta :=
  round_nonneg (mul_nonneg nonneg (natCast_nonneg _)) _

theorem accrued_le (bitRate : Nat) (delta : Int) :
    2000000000 * accrued bitRate delta ≤ 2 * (delta * (bitRate / 8 : Nat)) + 1000000000 := by
  have rounded := @round_le (delta * (bitRate / 8 : Nat)) 1000000000 (by decide)
  unfold accrued
  omega

theorem lor_nonneg (a b : Int) : 0 ≤ lor a b ↔ 0 ≤ a ∧ 0 ≤ b := by
  have natural : ∀ n : Nat, 0 ≤ ofNat n := natCast_nonneg
  have negative : ∀ n : Nat, ¬ 0 ≤ negSucc n := fun n => not_le.mpr (negSucc_lt_zero n)
  cases a with
  | ofNat m =>
    cases b with
    | ofNat n => exact iff_of_true (natural _) ⟨natural m, natural n⟩
    | negSucc n => exact iff_of_false (negative _) fun both => negative n both.2
  | negSucc m =>
    cases b with
    | ofNat n => exact iff_of_false (negative _) fun both => negative m both.1
    | negSucc n => exact iff_of_false (negative _) fun both => negative m both.1

theorem toUint32_lt (value : Int) : toUint32 value < 2 ^ 32 := by
  unfold toUint32
  omega

theorem toUint32_eq {value : Int} (nonneg : 0 ≤ value) (small : value < 2 ^ 32) :
    toUint32 value = value.toNat := by
  unfold toUint32
  omega

theorem toInt64_some {value fits : Int} (h : toInt64 value = some fits) : fits = value := by
  unfold toInt64 at h
  split at h
  · exact (Option.some.inj h).symm
  · cases h

theorem toInt_ofInteger_ofNat {n : Nat} (small : n < 2 ^ 63) :
    (Native.ofInteger (.ofNat 64 n)).toInt = (n * 2 ^ 64 : Nat) := by
  rw [Native.toInt_ofInteger, ← ofInt_natCast, toInt_ofInt, bmod_eq_of_le (by omega) (by omega)]
  rfl

theorem toInt_ofInt_natCast {value : Nat} (small : value < 2 ^ 127) :
    (BitVec.ofInt 128 value).toInt = value := by
  rw [toInt_ofInt]
  exact bmod_eq_of_le (by omega) (by omega)

theorem roundQ_eq {value : Nat} (small : value < 2 ^ 126) :
    (roundQ (.ofInt 128 value)).toInt = ((value + 2 ^ 63) / 2 ^ 64 : Nat) := by
  have sign : (BitVec.ofInt 128 value).slt 0 = false := by
    rw [Native.slt_zero, toInt_ofInt_natCast (by omega)]
    exact decide_eq_false (by omega)
  have sum : BitVec.ofInt 128 value + Native.ofParts 0 ((1 : BitVec 64) <<< 63) =
      .ofNat 128 (value + 2 ^ 63) := by
    rw [ofInt_natCast, ofNat_add]
    rfl
  unfold roundQ
  rw [sign]
  rw [if_neg Bool.false_ne_true, if_neg Bool.false_ne_true, sum]
  unfold Native.getHigh
  rw [sshiftRight_eq_of_msb_false (by
      rw [msb_eq_decide, toNat_ofNat]
      exact decide_eq_false (by omega)),
    toInt_eq_toNat_cond]
  simp only [toNat_setWidth, toNat_ushiftRight, toNat_ofNat]
  omega

theorem product_integer (value n : Nat) : product value (n * 2 ^ 64 : Nat) = (value * n : Nat) := by
  have sign : ∀ k : Nat, ¬ (k : Int) < 0 := fun k => by omega
  unfold product
  rw [if_neg (by simp only [sign, ne_eq, not_true_eq_false, not_false_eq_true]),
    natAbs_natCast, natAbs_natCast, ← mul_assoc,
    Nat.mul_div_cancel _ (by decide)]

theorem quotient_integer (m n : Nat) :
    quotient (m * 2 ^ 64 : Nat) (n * 2 ^ 64 : Nat) = (m * 2 ^ 64 / n : Nat) := by
  change ((m * 2 ^ 64 * 2 ^ 64 / (n * 2 ^ 64) : Nat) : Int) = _
  rw [Nat.mul_div_mul_right _ _ (by decide)]

theorem calculateBytesTxTime_eq {bitRate : Nat} (positive : 0 < bitRate)
    (small : bitRate < 2 ^ 63) (bytes : Int) :
    ∃ time : Nat, calculateBytesTxTime bitRate bytes = some (time : Int) := by
  have rate_toInt := toInt_ofInteger_ofNat small
  have nonzero : Native.ofInteger (.ofNat 64 bitRate) ≠ 0 := by
    intro zero
    rw [zero] at rate_toInt
    have none : (0 : BitVec 128).toInt = 0 := rfl
    omega
  unfold calculateBytesTxTime
  dsimp only
  have bits_lt := toUint32_lt (toUint32 bytes * 8)
  generalize toUint32 (toUint32 bytes * 8) = bits at bits_lt
  rw [Native.div_eq nonzero (by decide), toInt_ofInteger_ofNat (by omega), rate_toInt,
    quotient_integer, bind_eq_bind, bind_some, Native.mul_eq]
  have seconds_le : bits * 2 ^ 64 / bitRate ≤ bits * 2 ^ 64 := Nat.div_le_self _ _
  generalize bits * 2 ^ 64 / bitRate = seconds at seconds_le
  rw [toInt_ofInt_natCast (by omega), show (Native.ofInteger 1000000000).toInt =
      (1000000000 * 2 ^ 64 : Nat) from toInt_ofInteger_ofNat (by decide), product_integer,
    bind_some, pure_def, roundQ_eq (by omega)]
  exact ⟨_, rfl⟩

/-! ## One dequeue -/

theorem TbfQueueDisc.tokensAfter_some {bucket size rate pktSize : Nat} {delta toks : Int}
    (h : tokensAfter bucket size rate delta pktSize = some toks) :
    toks = min (bucket + accrued rate delta) size - pktSize := by
  unfold tokensAfter at h
  rw [bind_eq_bind, bind_eq_some_iff] at h
  obtain ⟨value, fits, rest⟩ := h
  obtain rfl := toInt64_some fits
  cases rest
  split <;> omega

namespace TbfQueueDisc

variable {C : Type} {ops : Child C} {earned : Nat → Int → Int} {now : Int} {q q' : TbfQueueDisc C}

theorem doDequeue_frame {result : Option QueueDiscItem}
    (done : doDequeue ops earned now q = (result, q')) :
    q'.burst = q.burst ∧ q'.mtu = q.mtu ∧ q'.rate = q.rate ∧ q'.peakRate = q.peakRate ∧
      match result with
      | none => q'.btokens = q.btokens ∧ q'.ptokens = q.ptokens ∧
          q'.timeCheckPoint = q.timeCheckPoint
      | some _ => q'.timeCheckPoint = now ∧ (q.peakRate = 0 → q'.ptokens = 0) := by
  unfold doDequeue at done
  dsimp only at done
  cases shown : (ops.peek now q.child).1 with
  | none =>
    rw [shown] at done
    cases done
    exact ⟨rfl, rfl, rfl, rfl, rfl, rfl, rfl⟩
  | some itemPeek =>
    rw [shown] at done
    dsimp only at done
    have second : q.peakRate = 0 → (if 0 < q.peakRate then
        peakBucket earned now { q with child := (ops.peek now q.child).2 } - itemPeek.size
      else 0) = 0 := fun none => if_neg (by omega)
    revert done second
    generalize (if 0 < q.peakRate then
        peakBucket earned now { q with child := (ops.peek now q.child).2 } - itemPeek.size
      else 0) = ptoks
    intro done second
    split at done
    · split at done
      · cases done
        exact ⟨rfl, rfl, rfl, rfl, rfl, rfl, rfl⟩
      · cases done
        exact ⟨rfl, rfl, rfl, rfl, rfl, fun none => by rw [second none]; rfl⟩
    · cases done
      exact ⟨rfl, rfl, rfl, rfl, rfl, rfl, rfl⟩

end TbfQueueDisc

namespace WatchedTbf

open TbfQueueDisc

variable {C : Type} {ops : Child C} {now : Int} {q q' : WatchedTbf C}

/-- The watchdog leaves the buckets alone, and a wake-up event is pending. -/
theorem watch_some {btoks ptoks : Int} (h : watch now q btoks ptoks = some q') :
    q'.disc = q.disc ∧ ∃ due, q'.wakeup = some due ∧ (q.wakeup = some due ∨ now ≤ due) := by
  unfold watch at h
  split at h
  case isTrue pending =>
    cases h
    obtain ⟨due, is⟩ := isSome_iff_exists.mp pending
    exact ⟨rfl, due, is, .inl is⟩
  case isFalse =>
    split at h
    · cases h
    · rw [bind_eq_bind, bind_eq_some_iff] at h
      obtain ⟨delay, -, rest⟩ := h
      split at rest
      · cases rest
      · cases rest
        exact ⟨rfl, now + delay, rfl, .inr (by omega)⟩

/-- The ways a dequeue ends: nothing is shown, what is shown is covered, or it is blocked. -/
theorem doDequeue_cases {result : Option QueueDiscItem}
    (h : doDequeue ops now q = some (result, q')) :
    let child := (ops.peek now q.disc.child).2
    ((ops.peek now q.disc.child).1 = none ∧ result = none ∧
      q' = { q with disc := { q.disc with child } }) ∨
    ∃ itemPeek btoks ptoks, (ops.peek now q.disc.child).1 = some itemPeek ∧
      btoks = bucket accrued now q.disc - itemPeek.size ∧
      ptoks = (if 0 < q.disc.peakRate then
        peakBucket accrued now q.disc - itemPeek.size else 0) ∧
      if 0 ≤ btoks ∧ 0 ≤ ptoks then
        let child := (ops.dequeue now child).2
        (result, q') = match (ops.dequeue now (ops.peek now q.disc.child).2).1 with
          | none => (none, { q with disc := { q.disc with child } })
          | some item => (some item, { q with disc := { q.disc with
              child, timeCheckPoint := now
              btokens := toUint32 btoks, ptokens := toUint32 ptoks } })
      else result = none ∧
        watch now { q with disc := { q.disc with child } } btoks ptoks = some q' := by
  unfold doDequeue at h
  dsimp only at h ⊢
  cases shown : (ops.peek now q.disc.child).1 with
  | none =>
    rw [shown] at h
    cases h
    exact .inl ⟨rfl, rfl, rfl⟩
  | some itemPeek =>
    rw [shown] at h
    simp only [bind_eq_bind, bind_eq_some_iff] at h
    obtain ⟨ptoks, peak, btoks, first, rest⟩ := h
    refine .inr ⟨itemPeek, btoks, ptoks, rfl, tokensAfter_some first, ?_, ?_⟩
    · split at peak
      case isTrue positive =>
        rw [if_pos positive]
        exact tokensAfter_some peak
      case isFalse zero =>
        rw [if_neg zero]
        exact (Option.some.inj peak).symm
    · by_cases enough : 0 ≤ btoks ∧ 0 ≤ ptoks
      · rw [if_pos ((lor_nonneg btoks ptoks).mpr enough)] at rest
        rw [if_pos enough]
        cases dequeued : (ops.dequeue now (ops.peek now q.disc.child).2).1 with
        | none =>
          rw [dequeued] at rest
          exact (Option.some.inj rest).symm
        | some item =>
          rw [dequeued] at rest
          exact (Option.some.inj rest).symm
      · rw [if_neg (mt (lor_nonneg btoks ptoks).mp enough)] at rest
        rw [if_neg enough]
        obtain ⟨watched, watches, same⟩ := bind_eq_some_iff.mp rest
        cases same
        exact ⟨rfl, watches⟩

/-- Without the watchdog this is the dequeue of a token bucket. -/
theorem doDequeue_forget {result : Option QueueDiscItem} (burst_lt : q.disc.burst < 2 ^ 32)
    (mtu_lt : q.disc.mtu < 2 ^ 32) (h : doDequeue ops now q = some (result, q')) :
    TbfQueueDisc.doDequeue ops accrued now q.disc = (result, q'.disc) := by
  obtain ⟨shown, rfl, rfl⟩ | ⟨itemPeek, btoks, ptoks, shown, first, second, ends⟩ :=
    doDequeue_cases h
  · unfold TbfQueueDisc.doDequeue
    dsimp only
    rw [shown]
  · unfold TbfQueueDisc.doDequeue
    dsimp only
    rw [shown]
    dsimp only
    have same : ∀ child : C, bucket accrued now { q.disc with child } = bucket accrued now q.disc ∧
      peakBucket accrued now { q.disc with child } = peakBucket accrued now q.disc :=
      fun child => ⟨rfl, rfl⟩
    rw [(same _).1, (same _).2, ← first, ← second]
    have btoks_lt : btoks < 2 ^ 32 := by
      unfold bucket at first
      omega
    have ptoks_lt : ptoks < 2 ^ 32 := by
      unfold peakBucket at second
      split at second <;> omega
    by_cases enough : 0 ≤ btoks ∧ 0 ≤ ptoks
    · rw [if_pos enough] at ends ⊢
      rw [toUint32_eq enough.1 btoks_lt, toUint32_eq enough.2 ptoks_lt] at ends
      cases dequeued : (ops.dequeue now (ops.peek now q.disc.child).2).1 with
      | none =>
        rw [dequeued] at ends
        cases ends
        rfl
      | some item =>
        rw [dequeued] at ends
        cases ends
        rfl
    · rw [if_neg enough] at ends ⊢
      rw [ends.1, (watch_some ends.2).1]

/-- A dequeue leaves the wake-up event alone, or one is pending. -/
theorem doDequeue_wakeup {result : Option QueueDiscItem}
    (h : doDequeue ops now q = some (result, q')) :
    q'.wakeup = q.wakeup ∨ ∃ due, q'.wakeup = some due ∧ (q.wakeup = some due ∨ now ≤ due) := by
  obtain ⟨-, -, rfl⟩ | ⟨itemPeek, btoks, ptoks, -, -, -, ends⟩ := doDequeue_cases h
  · exact .inl rfl
  · split at ends
    · dsimp only at ends
      cases dequeued : (ops.dequeue now (ops.peek now q.disc.child).2).1 with
      | none =>
        rw [dequeued] at ends
        cases ends
        exact .inl rfl
      | some item =>
        rw [dequeued] at ends
        cases ends
        exact .inl rfl
    · exact .inr (watch_some ends.2).2

/-- When a packet that waits is not dequeued, a wake-up event is pending. -/
theorem doDequeue_blocked (predicts : Predicts (ops.peek now) (ops.dequeue now) q.disc.child)
    (waits : (ops.peek now q.disc.child).1 ≠ none) (h : doDequeue ops now q = some (none, q')) :
    ∃ due, q'.wakeup = some due ∧ (q.wakeup = some due ∨ now ≤ due) := by
  obtain ⟨shown, -, -⟩ | ⟨itemPeek, btoks, ptoks, shown, -, -, ends⟩ := doDequeue_cases h
  · exact absurd shown waits
  · split at ends
    · dsimp only at ends
      rw [predicts itemPeek shown] at ends
      cases ends
    · exact (watch_some ends.2).2

end WatchedTbf

/-! ## Runs -/

/-- The attributes. -/
structure TbfParams where
  burst : UInt32
  mtu : UInt32
  rate : UInt64
  peakRate : UInt64

/-- A dequeued packet. -/
structure Release where
  time : Int
  size : Nat

/-- The queue disc, the time, and what was dequeued, the latest first. -/
structure TbfWorld (C : Type) where
  queueDisc : WatchedTbf C
  now : Int := 0
  released : List Release := []

/-- `InitializeParams`: the buckets are full. -/
def initializeParams {C : Type} (p : TbfParams) (child : C) : WatchedTbf C where
  disc := {
    child
    burst := p.burst.toNat, mtu := p.mtu.toNat, rate := p.rate.toNat, peakRate := p.peakRate.toNat
    btokens := p.burst.toNat, ptokens := p.mtu.toNat, timeCheckPoint := 0 }

/-- Packets arrive at the child, time passes up to the wake-up event, the event expires and
runs the queue disc, and a run dequeues. -/
inductive TbfEvent (C : Type) where
  | arrive (child : C)
  | pass (time : Int)
  | expire
  | dequeue

namespace TbfWorld

variable {C : Type} (ops : Child C)

def step (w : TbfWorld C) : TbfEvent C → Option (TbfWorld C)
  | .arrive child =>
    some { w with queueDisc := { w.queueDisc with disc := { w.queueDisc.disc with child } } }
  | .pass time =>
    if w.now ≤ time ∧ ∀ due ∈ w.queueDisc.wakeup, time ≤ due then some { w with now := time }
    else none
  | .expire => w.queueDisc.wakeup.map fun due =>
    { w with now := due, queueDisc := { w.queueDisc with wakeup := none } }
  | .dequeue => (WatchedTbf.doDequeue ops w.now w.queueDisc).map fun (item, queueDisc) =>
    { w with queueDisc, released := (item.map (Release.mk w.now ·.size)).toList ++ w.released }

/-- The peek of the child predicts its dequeue. -/
def Foresees (w : TbfWorld C) : Prop :=
  Predicts (ops.peek w.now) (ops.dequeue w.now) w.queueDisc.disc.child

/-- The states of runs over a child that predicts. -/
def Reached (p : TbfParams) : TbfWorld C → Prop :=
  Machine.Reaches (step ops) (fun w e => match e with | .dequeue => Foresees ops w | _ => True)
    fun w => ∃ child, w = { queueDisc := initializeParams p child }

end TbfWorld

/-- The checkpoint after some packets. -/
def checkPoint (start : Int) : List Release → Int
  | [] => start
  | latest :: _ => latest.time

/-- What a bucket earns and spends for the packets: the tokens accrue since the packet before. -/
def withdrawals (bitRate : Nat) (start : Int) : List Release → List Withdrawal
  | [] => []
  | r :: earlier => ⟨accrued bitRate (r.time - checkPoint start earlier), r.size⟩ ::
      withdrawals bitRate start earlier

def bytes (released : List Release) : Nat := (released.map Release.size).sum

theorem withdrawals_append (bitRate : Nat) (start : Int) (newer older : List Release) :
    withdrawals bitRate start (newer ++ older) =
      withdrawals bitRate (checkPoint start older) newer ++ withdrawals bitRate start older := by
  induction newer with
  | nil => rfl
  | cons r newer ih =>
    have same : checkPoint start (newer ++ older) = checkPoint (checkPoint start older) newer := by
      cases newer <;> rfl
    simp [withdrawals, ih, same]

theorem spent_withdrawals (bitRate : Nat) (start : Int) (released : List Release) :
    spent (withdrawals bitRate start released) = bytes released := by
  induction released with
  | nil => rfl
  | cons r earlier ih =>
    simp only [withdrawals, spent_cons, ih, bytes, List.map_cons, List.sum_cons]
    omega

/-- The tokens earned are those of the elapsed time, with half a token for each packet. -/
theorem earned_withdrawals_le (bitRate : Nat) (start : Int) (released : List Release) :
    2000000000 * earned (withdrawals bitRate start released) ≤
      2 * ((checkPoint start released - start) * (bitRate / 8 : Nat)) +
        1000000000 * released.length := by
  induction released with
  | nil => simp [withdrawals, checkPoint]
  | cons r earlier ih =>
    have latest := accrued_le bitRate (r.time - checkPoint start earlier)
    simp only [withdrawals, earned_cons, List.length_cons]
    rw [show checkPoint start (r :: earlier) = r.time from rfl]
    rw [sub_mul] at latest ih ⊢
    omega

/-- What holds in every state: the buckets are what the dequeued packets leave of full ones. -/
structure TbfWorld.Kept {C : Type} (p : TbfParams) (w : TbfWorld C) : Prop where
  burst : w.queueDisc.disc.burst = p.burst.toNat
  mtu : w.queueDisc.disc.mtu = p.mtu.toNat
  rate : w.queueDisc.disc.rate = p.rate.toNat
  peakRate : w.queueDisc.disc.peakRate = p.peakRate.toNat
  first : w.queueDisc.disc.btokens =
    left p.burst.toNat (withdrawals p.rate.toNat 0 w.released)
  second : 0 < p.peakRate.toNat → w.queueDisc.disc.ptokens =
    left p.mtu.toNat (withdrawals p.peakRate.toNat 0 w.released)
  second_le : w.queueDisc.disc.ptokens ≤ p.mtu.toNat
  covered : Covered p.burst.toNat (withdrawals p.rate.toNat 0 w.released)
  peakCovered : 0 < p.peakRate.toNat →
    Covered p.mtu.toNat (withdrawals p.peakRate.toNat 0 w.released)
  checkPoint : w.queueDisc.disc.timeCheckPoint = checkPoint 0 w.released
  past : w.queueDisc.disc.timeCheckPoint ≤ w.now
  ahead : ∀ due, w.queueDisc.wakeup = some due → w.now ≤ due

namespace TbfWorld

open TbfQueueDisc

variable {C : Type} {ops : Child C} {p : TbfParams} {w w' : TbfWorld C}

theorem Kept.start (p : TbfParams) (child : C) :
    Kept p { queueDisc := initializeParams p child } where
  burst := rfl
  mtu := rfl
  rate := rfl
  peakRate := rfl
  first := rfl
  second _ := rfl
  second_le := le_refl _
  covered := trivial
  peakCovered _ := trivial
  checkPoint := rfl
  past := le_refl _
  ahead := nofun

theorem Kept.dequeue (kept : Kept p w) (foresees : Foresees ops w)
    (h : step ops w .dequeue = some w') : Kept p w' := by
  obtain ⟨⟨result, queueDisc⟩, done, rfl⟩ := map_eq_some_iff.mp h
  have forget := WatchedTbf.doDequeue_forget (kept.burst ▸ p.burst.toNat_lt)
    (kept.mtu ▸ p.mtu.toNat_lt) done
  obtain ⟨burst, mtu, rate, peakRate, rest⟩ := doDequeue_frame forget
  have ahead : ∀ due, queueDisc.wakeup = some due → w.now ≤ due := by
    intro due is
    obtain same | ⟨other, found, before | after⟩ := WatchedTbf.doDequeue_wakeup done
    · exact kept.ahead due (same ▸ is)
    · exact kept.ahead due (before.trans (found.symm.trans is))
    · cases found.symm.trans is
      exact after
  cases result with
  | none =>
    obtain ⟨btokens, ptokens, checkPoint⟩ := rest
    exact {
      burst := burst.trans kept.burst
      mtu := mtu.trans kept.mtu
      rate := rate.trans kept.rate
      peakRate := peakRate.trans kept.peakRate
      first := (congrArg ofNat btokens).trans kept.first
      second := fun some => (congrArg ofNat ptokens).trans (kept.second some)
      second_le := ptokens ▸ kept.second_le
      covered := kept.covered
      peakCovered := kept.peakCovered
      checkPoint := checkPoint.trans kept.checkPoint
      past := checkPoint ▸ kept.past
      ahead }
  | some item =>
    obtain ⟨checkPoint, none⟩ := rest
    obtain ⟨first, second⟩ := pays_of_predicts foresees item _ forget
    unfold bucket at first
    unfold peakBucket at second
    rw [kept.first, kept.rate, kept.burst, kept.checkPoint] at first
    rw [kept.peakRate, kept.mtu, kept.checkPoint] at second
    exact {
      burst := burst.trans kept.burst
      mtu := mtu.trans kept.mtu
      rate := rate.trans kept.rate
      peakRate := peakRate.trans kept.peakRate
      first := first.symm
      second := by
        intro some
        rw [← second some, kept.second some]
        rfl
      second_le := by
        change queueDisc.disc.ptokens ≤ p.mtu.toNat
        by_cases some : 0 < p.peakRate.toNat
        · have paid := second some
          omega
        · rw [none (by rw [kept.peakRate]; omega)]
          exact Nat.zero_le _
      covered := kept.covered.withdraw (natCast_nonneg _) ((natCast_nonneg _).trans_eq first.symm)
      peakCovered := by
        intro some
        have paid := second some
        rw [kept.second some] at paid
        exact (kept.peakCovered some).withdraw (natCast_nonneg _)
          ((natCast_nonneg _).trans_eq paid.symm)
      checkPoint
      past := le_of_eq checkPoint
      ahead }

theorem Reached.kept (reached : Reached ops p w) : Kept p w := by
  refine Machine.Reaches.invariant reached (Kept p) ?_ ?_
  · rintro _ ⟨child, rfl⟩
    exact .start p child
  · intro w e w' kept may h
    cases e with
    | arrive child =>
      cases h
      exact { kept with }
    | pass time =>
      obtain ⟨⟨later, early⟩, same⟩ := ite_none_right_eq_some.mp h
      cases same
      exact { kept with past := le_trans kept.past later, ahead := early }
    | expire =>
      obtain ⟨due, is, rfl⟩ := map_eq_some_iff.mp h
      exact { kept with past := le_trans kept.past (kept.ahead due is), ahead := nofun }
    | dequeue => exact kept.dequeue may h

end TbfWorld

/-! ## Conformance -/

namespace TbfWorld

open TbfQueueDisc

variable {C : Type} {ops : Child C} {p : TbfParams} {w : TbfWorld C}

/-- The tokens of both buckets fit in an `int64_t` before they are limited. -/
def Fits (q : TbfQueueDisc C) (now : Int) : Prop :=
  q.btokens + accrued q.rate (now - q.timeCheckPoint) < 2 ^ 63 ∧
  (0 < q.peakRate → q.ptokens + accrued q.peakRate (now - q.timeCheckPoint) < 2 ^ 63)

instance (q : TbfQueueDisc C) (now : Int) : Decidable (Fits q now) :=
  inferInstanceAs (Decidable (_ ∧ _))

theorem tokensAfter_fits {bucket size rate pktSize : Nat} {delta : Int} (nonneg : 0 ≤ delta)
    (fits : bucket + accrued rate delta < 2 ^ 63) :
    ∃ toks, tokensAfter bucket size rate delta pktSize = some toks := by
  have earns := accrued_nonneg rate nonneg
  unfold tokensAfter toInt64
  rw [if_pos ⟨by omega, fits⟩]
  exact ⟨_, rfl⟩

theorem requiredDelayTime_some {rate peakRate : Nat} (positive : 0 < rate) (rate_lt : rate < 2 ^ 63)
    (peakRate_lt : peakRate < 2 ^ 63) {btoks ptoks : Int} (short : peakRate = 0 → btoks < 0) :
    ∃ delay : Nat, requiredDelayTime rate peakRate btoks ptoks = some (delay : Int) := by
  obtain ⟨first, first_is⟩ := calculateBytesTxTime_eq positive rate_lt (-btoks)
  unfold requiredDelayTime
  by_cases one : peakRate = 0
  · rw [if_pos one, if_pos (short one)]
    exact ⟨first, first_is⟩
  · obtain ⟨second, second_is⟩ := calculateBytesTxTime_eq (pos_of_ne_zero one) peakRate_lt (-ptoks)
    rw [if_neg one, first_is, second_is]
    split
    · exact ⟨first, rfl⟩
    · split
      · exact ⟨second, rfl⟩
      · exact ⟨max first second, congrArg some (by omega)⟩

/-- No assertion fails on a dequeue, and no value leaves its range. -/
theorem Kept.doDequeue_some (kept : Kept p w) (positive : 0 < p.rate.toNat)
    (rate_lt : p.rate.toNat < 2 ^ 63) (peakRate_lt : p.peakRate.toNat < 2 ^ 63)
    (fits : Fits w.queueDisc.disc w.now) :
    ∃ result, WatchedTbf.doDequeue ops w.now w.queueDisc = some result := by
  have elapsed := sub_nonneg.mpr kept.past
  obtain ⟨rate, peakRate⟩ := And.intro kept.rate kept.peakRate
  unfold WatchedTbf.doDequeue
  dsimp only
  cases (ops.peek w.now w.queueDisc.disc.child).1 with
  | none => exact ⟨_, rfl⟩
  | some itemPeek =>
    have second : ∃ ptoks, (if 0 < w.queueDisc.disc.peakRate then
        tokensAfter w.queueDisc.disc.ptokens w.queueDisc.disc.mtu w.queueDisc.disc.peakRate
          (w.now - w.queueDisc.disc.timeCheckPoint) itemPeek.size
        else some 0) = some ptoks ∧ (w.queueDisc.disc.peakRate = 0 → 0 ≤ ptoks) := by
      split
      case isTrue some =>
        obtain ⟨ptoks, is⟩ := tokensAfter_fits elapsed (fits.2 some)
        exact ⟨ptoks, is, fun none => absurd none (by omega)⟩
      case isFalse => exact ⟨0, rfl, fun _ => le_refl 0⟩
    obtain ⟨ptoks, ptoks_is, unlimited⟩ := second
    obtain ⟨btoks, btoks_is⟩ := @tokensAfter_fits _ w.queueDisc.disc.burst _ itemPeek.size _
      elapsed fits.1
    dsimp only
    rw [ptoks_is, btoks_is, bind_eq_bind, bind_some, bind_eq_bind, bind_some]
    by_cases enough : 0 ≤ btoks ∧ 0 ≤ ptoks
    · rw [if_pos ((lor_nonneg btoks ptoks).mpr enough)]
      split <;> exact ⟨_, rfl⟩
    · rw [if_neg (mt (lor_nonneg btoks ptoks).mp enough)]
      unfold WatchedTbf.watch
      rw [rate, peakRate] at *
      split
      · exact ⟨_, rfl⟩
      · have short : p.peakRate.toNat = 0 → btoks < 0 :=
          fun one => not_le.mp fun pays => enough ⟨pays, unlimited one⟩
        obtain ⟨delay, delay_is⟩ := @requiredDelayTime_some _ _ positive rate_lt peakRate_lt
          btoks ptoks short
        rw [if_neg (Nat.ne_of_gt positive), delay_is, bind_eq_bind, bind_some, if_neg (by omega)]
        exact ⟨_, rfl⟩

end TbfWorld

/-- **Conformance and wake-up** of a token bucket, in each state of a run: the buckets hold no
more than their sizes, what was dequeued since any packet is at most a full bucket and the
tokens earned since, a packet that is dequeued is in both buckets, and when a packet is
blocked a wake-up event is pending. With values in range a dequeue has a result. -/
theorem doDequeue_conforms {C : Type} {ops : Child C} {p : TbfParams} {w : TbfWorld C}
    (positive : 0 < p.rate) (reached : TbfWorld.Reached ops p w) :
    let disc := w.queueDisc.disc
    (disc.btokens ≤ p.burst.toNat ∧ disc.ptokens ≤ p.mtu.toNat) ∧
    (∀ newer older, w.released = newer ++ older →
      let start := checkPoint 0 older
      let tokens := earned (withdrawals p.rate.toNat start newer)
      bytes newer ≤ p.burst.toNat + tokens ∧
      2000000000 * tokens ≤ 2 * ((checkPoint start newer - start) * (p.rate.toNat / 8 : Nat)) +
        1000000000 * newer.length ∧
      (0 < p.peakRate.toNat →
        bytes newer ≤ p.mtu.toNat + earned (withdrawals p.peakRate.toNat start newer))) ∧
    (TbfWorld.Foresees ops w →
      (∀ item q, WatchedTbf.doDequeue ops w.now w.queueDisc = some (some item, q) →
        item.size ≤ disc.bucket accrued w.now ∧
        (0 < disc.peakRate → item.size ≤ disc.peakBucket accrued w.now)) ∧
      (∀ q, WatchedTbf.doDequeue ops w.now w.queueDisc = some (none, q) →
        (ops.peek w.now disc.child).1 ≠ none →
        ∃ due, q.wakeup = some due ∧ w.now ≤ due)) ∧
    (p.rate.toNat < 2 ^ 63 → p.peakRate.toNat < 2 ^ 63 → TbfWorld.Fits disc w.now →
      ∃ result, WatchedTbf.doDequeue ops w.now w.queueDisc = some result) := by
  have kept := reached.kept
  refine ⟨⟨?_, kept.second_le⟩, ?_, fun foresees => ⟨?_, ?_⟩, ?_⟩
  · have full := kept.covered.left_le
    rw [← kept.first] at full
    omega
  · intro newer older is
    have covered := kept.covered
    have peakCovered := kept.peakCovered
    rw [is, withdrawals_append] at covered peakCovered
    refine ⟨?_, earned_withdrawals_le _ _ _, fun some => ?_⟩
    · rw [← spent_withdrawals]
      exact covered.spent_le (natCast_nonneg _)
    · rw [← spent_withdrawals]
      exact (peakCovered some).spent_le (natCast_nonneg _)
  · intro item q done
    have forget := WatchedTbf.doDequeue_forget (kept.burst ▸ p.burst.toNat_lt)
      (kept.mtu ▸ p.mtu.toNat_lt) done
    obtain ⟨first, second⟩ := TbfQueueDisc.pays_of_predicts foresees item _ forget
    refine ⟨by omega, fun some => ?_⟩
    have paid := second some
    omega
  · intro q done waits
    obtain ⟨due, is, before | after⟩ := WatchedTbf.doDequeue_blocked foresees waits done
    · exact ⟨due, is, kept.ahead due before⟩
    · exact ⟨due, is, after⟩
  · exact kept.doDequeue_some (UInt64.lt_iff_toNat_lt.mp positive)

/-- A queue of packets. -/
def fifoChild : Child (List QueueDiscItem) where
  peek _ packets := (packets.head?, packets)
  dequeue _ packets := (packets.head?, packets.tail)

/-- A bucket for one packet that earns 1000 bytes a second, with two packets to dequeue. -/
def twoPackets : List QueueDiscItem := [⟨1, 100, 0, none, false⟩, ⟨2, 60, 0, none, false⟩]

/-- The first packet is dequeued at once; the second waits for the wake-up event. -/
theorem doDequeue_conforms_two :
    let p : TbfParams := ⟨100, 0, 8000, 0⟩
    ∃ w : TbfWorld (List QueueDiscItem), TbfWorld.Reached fifoChild p w ∧
      w.released.length = 1 ∧ w.queueDisc.disc.btokens ≤ 100 ∧
      ∃ q, WatchedTbf.doDequeue fifoChild w.now w.queueDisc = some (none, q) ∧
        ∃ due, q.wakeup = some due ∧ 0 ≤ due := by
  have foresees : ∀ w, TbfWorld.Foresees fifoChild w := fun w item shown => shown
  have start : TbfWorld.Reached fifoChild ⟨100, 0, 8000, 0⟩ _ :=
    .next (e := .dequeue) (.start ⟨twoPackets, rfl⟩) (foresees _) rfl
  obtain ⟨⟨first, -⟩, -, dequeues, total⟩ := doDequeue_conforms (by decide) start
  obtain ⟨⟨result, q⟩, done⟩ := total (by decide) (by decide) (by decide)
  have forget := WatchedTbf.doDequeue_forget (by decide) (by decide) done
  obtain rfl : none = result := congrArg Prod.fst forget
  exact ⟨_, start, rfl, first, q, done, (dequeues (foresees _)).2 q done (by decide)⟩

end Ns3.TrafficControl
