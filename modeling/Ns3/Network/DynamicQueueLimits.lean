import Mathlib.Data.BitVec
import Ns3.Library.Machine

/-!
# `DynamicQueueLimits`

The limit of a device queue follows what the device completes. The counters run on in 32
bits, and their differences are taken as signed numbers.
-/

namespace Ns3.Network

open UInt32

def uintMax : UInt32 := 4294967295

def dqlMaxObject : UInt32 := uintMax / 16

def dqlMaxLimit : UInt32 := uintMax / 2 - dqlMaxObject

/-- The attributes, within their checkers. -/
structure DqlConfig where
  maxLimit : UInt32
  minLimit : UInt32
  slackHoldTime : Nat
  max_le : maxLimit ≤ dqlMaxLimit

structure DynamicQueueLimits where
  numQueued : UInt32 := 0
  adjLimit : UInt32 := 0
  lastObjCnt : UInt32 := 0
  limit : UInt32 := 0
  numCompleted : UInt32 := 0
  prevOvlimit : UInt32 := 0
  prevNumQueued : UInt32 := 0
  prevLastObjCnt : UInt32 := 0
  lowestSlack : UInt32 := uintMax
  slackStartTime : Nat := 0
  deriving DecidableEq

/-- The conversion to `int32_t`. -/
def asInt32 (x : UInt32) : Int := x.toBitVec.toInt

/-- The difference of two `int32_t`, in 32 bits, or zero. -/
def posdiff (a b : UInt32) : UInt32 := if asInt32 (a - b) < 0 then 0 else a - b

namespace DynamicQueueLimits

/-- `Reset` leaves `m_adjLimit` as it is. -/
def reset (s : DynamicQueueLimits) (now : Nat) : DynamicQueueLimits :=
  { adjLimit := s.adjLimit, slackStartTime := now }

def available (s : DynamicQueueLimits) : Int := asInt32 (s.adjLimit - s.numQueued)

/-- `Queued`, with its assertion. -/
def queued (s : DynamicQueueLimits) (count : UInt32) : Option DynamicQueueLimits :=
  if count ≤ dqlMaxObject then
    some { s with lastObjCnt := count, numQueued := s.numQueued + count }
  else none

/-! ## `Completed` -/

section Completed

variable (s : DynamicQueueLimits) (count : UInt32)

def ovlimit : UInt32 := posdiff (s.numQueued - s.numCompleted) s.limit

def inprogress : UInt32 := s.numQueued - (s.numCompleted + count)

def prevInprogress : UInt32 := s.prevNumQueued - s.numCompleted

def AllPrevCompleted : Prop := 0 ≤ asInt32 (s.numCompleted + count - s.prevNumQueued)

instance : Decidable (s.AllPrevCompleted count) := inferInstanceAs (Decidable (0 ≤ _))

/-- The queue was over its limit and is empty, or was so before and ran empty in between. -/
def Starved : Prop :=
  s.ovlimit ≠ 0 ∧ s.inprogress count = 0 ∨ s.prevOvlimit ≠ 0 ∧ s.AllPrevCompleted count

instance : Decidable (s.Starved count) := inferInstanceAs (Decidable (_ ∨ _))

/-- The queue was busy all the time, and a decrease is considered. -/
def Busy : Prop :=
  ¬ s.Starved count ∧ s.inprogress count ≠ 0 ∧ s.prevInprogress ≠ 0 ∧ ¬ s.AllPrevCompleted count

instance : Decidable (s.Busy count) := inferInstanceAs (Decidable (_ ∧ _))

def slack : UInt32 :=
  let slack := posdiff (s.limit + s.prevOvlimit) (2 * (s.numCompleted + count - s.numCompleted))
  let slackLastObjs := if s.prevOvlimit ≠ 0 then posdiff s.prevLastObjCnt s.prevOvlimit else 0
  max slack slackLastObjs

/-- The lowest slack, this one included. -/
def lowest : UInt32 := if s.slack count < s.lowestSlack then s.slack count else s.lowestSlack

/-- The limit before its bounds, the lowest slack and the start of its measure. -/
def adjusted (config : DqlConfig) (now : Nat) : UInt32 × UInt32 × Nat :=
  if s.Starved count then
    (s.limit + (posdiff (s.numCompleted + count) s.prevNumQueued + s.prevOvlimit), uintMax, now)
  else if s.Busy count then
    if s.slackStartTime + config.slackHoldTime < now then
      (posdiff s.limit (s.lowest count), uintMax, now)
    else (s.limit, s.lowest count, s.slackStartTime)
  else (s.limit, s.lowestSlack, s.slackStartTime)

end Completed

def bounded (config : DqlConfig) (limit : UInt32) : UInt32 :=
  min (max limit config.minLimit) config.maxLimit

/-- `Completed`, with its assertion. -/
def completed (s : DynamicQueueLimits) (config : DqlConfig) (now : Nat) (count : UInt32) :
    Option DynamicQueueLimits :=
  if count ≤ s.numQueued - s.numCompleted then
    let (limit, lowestSlack, slackStartTime) := s.adjusted count config now
    let limit := bounded config limit
    some {
      numQueued := s.numQueued
      adjLimit := limit + (s.numCompleted + count)
      lastObjCnt := s.lastObjCnt
      limit
      numCompleted := s.numCompleted + count
      prevOvlimit := if limit ≠ s.limit then 0 else s.ovlimit
      prevNumQueued := s.numQueued
      prevLastObjCnt := s.lastObjCnt
      lowestSlack
      slackStartTime }
  else none

end DynamicQueueLimits

/-! ## Runs -/

namespace Dql

open DynamicQueueLimits

/-- The limits with all the bytes queued and completed since the reset, and what the limit has
to keep from each completion of the hold interval that found the queue busy. -/
structure World where
  limits : DynamicQueueLimits
  queued : Nat := 0
  completed : Nat := 0
  needs : List Nat := []

inductive Event where
  | queued (count : UInt32)
  | completed (now : Nat) (count : UInt32)

/-- The excess over what was needed, in natural numbers. -/
def exactSlack (s : DynamicQueueLimits) (count : UInt32) : Nat :=
  max (s.limit.toNat + s.prevOvlimit.toNat - 2 * count.toNat)
    (if s.prevOvlimit ≠ 0 then s.prevLastObjCnt.toNat - s.prevOvlimit.toNat else 0)

/-- What the limit has to keep, so that the queue does not starve. -/
def need (s : DynamicQueueLimits) (count : UInt32) : Nat := s.limit.toNat - exactSlack s count

/-- The completion comes behind the hold time of a busy queue. -/
def Reduces (config : DqlConfig) (s : DynamicQueueLimits) (now : Nat) (count : UInt32) : Prop :=
  s.Busy count ∧ s.slackStartTime + config.slackHoldTime < now

instance (config : DqlConfig) (s : DynamicQueueLimits) (now : Nat) (count : UInt32) :
    Decidable (Reduces config s now count) := inferInstanceAs (Decidable (_ ∧ _))

/-- No more is completed than is in flight. -/
def step (config : DqlConfig) (w : World) : Event → Option World
  | .queued count => do
    let limits ← w.limits.queued count
    return { w with limits, queued := w.queued + count.toNat }
  | .completed now count =>
    if w.completed + count.toNat ≤ w.queued then do
      let limits ← w.limits.completed config now count
      return { w with
        limits
        completed := w.completed + count.toNat
        needs :=
          if w.limits.Starved count ∨ Reduces config w.limits now count then []
          else if w.limits.Busy count then need w.limits count :: w.needs
          else w.needs }
    else none

/-- After a reset, with whatever `m_adjLimit` was left. -/
def Start (w : World) : Prop :=
  ∃ s now, w = { limits := reset s now }

/-- A completion that finds the queue busy is not so large that the slack wraps. -/
def Fits (w : World) : Event → Prop
  | .queued _ => True
  | .completed _ count => w.limits.Busy count →
    2 * count.toNat ≤ w.limits.limit.toNat + w.limits.prevOvlimit.toNat + 2 ^ 31

/-! ## The counters -/

theorem asInt32_eq (x : UInt32) :
    asInt32 x = if x.toNat < 2 ^ 31 then (x.toNat : Int) else x.toNat - 2 ^ 32 := by
  have bound := x.toNat_lt
  have value := BitVec.toInt_eq_toNat_cond x.toBitVec
  have same : x.toBitVec.toNat = x.toNat := rfl
  unfold asInt32
  rw [value, same]
  split <;> split <;> omega

theorem toNat_sub_eq (a b : UInt32) : (a - b).toNat = if b.toNat ≤ a.toNat then a.toNat - b.toNat
      else a.toNat + 2 ^ 32 - b.toNat := by
  have a_lt := a.toNat_lt
  have b_lt := b.toNat_lt
  rw [UInt32.toNat_sub]
  split <;> omega

/-- A positive difference is no more than the exact one, unless that is very negative. -/
theorem posdiff_le {a b : UInt32} {x y : Nat} (a_mod : a.toNat = x % 2 ^ 32)
    (b_mod : b.toNat = y % 2 ^ 32) (near : y ≤ x + 2 ^ 31) (far : x < 2 ^ 32)
    (y_lt : y < 2 ^ 33) : (posdiff a b).toNat ≤ x - y := by
  have value := toNat_sub_eq a b
  have signed := asInt32_eq (a - b)
  unfold posdiff
  split
  · rw [UInt32.toNat_zero]
    omega
  · split at signed <;> split at value <;> omega

theorem posdiff_lt (a b : UInt32) : (posdiff a b).toNat < 2 ^ 31 := by
  have bound := (a - b).toNat_lt
  have signed := asInt32_eq (a - b)
  unfold posdiff
  split
  · decide
  · split at signed <;> omega

theorem posdiff_eq {a b : UInt32} (a_lt : a.toNat < 2 ^ 31) (b_lt : b.toNat < 2 ^ 31) :
    (posdiff a b).toNat = a.toNat - b.toNat := by
  have value := toNat_sub_eq a b
  have signed := asInt32_eq (a - b)
  unfold posdiff
  split
  · rw [UInt32.toNat_zero]
    split at signed <;> split at value <;> omega
  · split at signed <;> split at value <;> omega

theorem toNat_max (a b : UInt32) : (max a b).toNat = max a.toNat b.toNat := by
  rw [UInt32.max_def]
  split
  case isTrue le => exact (max_eq_right (le_iff_toNat_le.mp le)).symm
  case isFalse lt =>
    exact (max_eq_left (Nat.le_of_not_le fun le => lt (le_iff_toNat_le.mpr le))).symm

theorem toNat_min (a b : UInt32) : (min a b).toNat = min a.toNat b.toNat := by
  rw [UInt32.min_def]
  split
  case isTrue le => exact (min_eq_left (le_iff_toNat_le.mp le)).symm
  case isFalse lt =>
    exact (min_eq_right (Nat.le_of_not_le fun le => lt (le_iff_toNat_le.mpr le))).symm

theorem toNat_bounded (config : DqlConfig) (limit : UInt32) : (bounded config limit).toNat =
    min (max limit.toNat config.minLimit.toNat) config.maxLimit.toNat := by
  unfold bounded
  rw [toNat_min, toNat_max]

theorem maxLimit_lt (config : DqlConfig) : config.maxLimit.toNat < 2 ^ 31 := by
  have le : config.maxLimit.toNat ≤ dqlMaxLimit.toNat := le_iff_toNat_le.mp config.max_le
  exact lt_of_le_of_lt le (by decide)

variable {config : DqlConfig} {s : DynamicQueueLimits} {now : Nat} {count : UInt32} {w : World}

theorem completed_spec {s' : DynamicQueueLimits} (done : s.completed config now count = some s') :
    s'.numQueued = s.numQueued ∧ s'.numCompleted = s.numCompleted + count ∧
      s'.limit = bounded config (s.adjusted count config now).1 ∧
      s'.lowestSlack = (s.adjusted count config now).2.1 ∧
      s'.adjLimit = s'.limit + s'.numCompleted ∧ s'.prevOvlimit.toNat < 2 ^ 31 := by
  unfold completed at done
  generalize s.adjusted count config now = adjusted at *
  obtain ⟨limit, lowestSlack, slackStartTime⟩ := adjusted
  split at done
  case isFalse => nomatch done
  case isTrue =>
    cases done
    refine ⟨rfl, rfl, rfl, rfl, rfl, ?_⟩
    split
    · exact Nat.two_pow_pos 31
    · exact posdiff_lt _ _

/-- What the counters stand for. -/
structure Counted (w : World) : Prop where
  queued : w.limits.numQueued.toNat = w.queued % 2 ^ 32
  completed : w.limits.numCompleted.toNat = w.completed % 2 ^ 32
  le : w.completed ≤ w.queued

theorem step_counted {w' : World} {e : Event} (counted : Counted w)
    (done : step config w e = some w') : Counted w' := by
  obtain ⟨queued, completed, le⟩ := counted
  cases e with
  | queued count =>
    obtain ⟨limits, here, done⟩ := Option.bind_eq_some_iff.mp done
    cases done
    unfold DynamicQueueLimits.queued at here
    split at here
    case isFalse => nomatch here
    case isTrue =>
      cases here
      refine ⟨?_, completed, le_trans le (Nat.le_add_right _ _)⟩
      simp [queued]
  | completed now count =>
    rw [step] at done
    split at done
    case isFalse => nomatch done
    case isTrue inside =>
      obtain ⟨limits, here, done⟩ := Option.bind_eq_some_iff.mp done
      cases done
      obtain ⟨numQueued, numCompleted, _⟩ := completed_spec here
      refine ⟨by rw [← queued, ← numQueued], ?_, inside⟩
      simp [numCompleted, completed]

theorem start_counted (start : Start w) : Counted w := by
  obtain ⟨s, now, rfl⟩ := start
  exact ⟨rfl, rfl, le_refl 0⟩

/-- **Available** is the limit less what is in flight, as long as that is a signed number. -/
theorem available_iff (counted : Counted w) (limit_lt : w.limits.limit.toNat < 2 ^ 31)
    (adj : w.limits.adjLimit = w.limits.limit + w.limits.numCompleted) :
    w.limits.available = (w.limits.limit.toNat : Int) - (w.queued - w.completed : Nat) ↔
      w.queued - w.completed ≤ w.limits.limit.toNat + 2 ^ 31 := by
  obtain ⟨queued, completed, le⟩ := counted
  have signed := asInt32_eq (w.limits.adjLimit - w.limits.numQueued)
  have value := toNat_sub_eq w.limits.adjLimit w.limits.numQueued
  rw [adj, UInt32.toNat_add] at value
  rw [adj] at signed
  unfold available
  rw [adj, signed]
  split <;> split at value <;> omega

/-! ## The slack -/

/-- Under a completion that fits, the slack is no more than the excess. -/
theorem slack_le (limit_lt : s.limit.toNat < 2 ^ 31) (ov_lt : s.prevOvlimit.toNat < 2 ^ 31)
    (fits : 2 * count.toNat ≤ s.limit.toNat + s.prevOvlimit.toNat + 2 ^ 31) :
    (s.slack count).toNat ≤ exactSlack s count ∧ (s.slack count).toNat < 2 ^ 31 := by
  have count_lt := count.toNat_lt
  have last_lt := s.prevLastObjCnt.toNat_lt
  have same : s.numCompleted + count - s.numCompleted = count := by
    apply UInt32.toNat_inj.mp
    have completed_lt := s.numCompleted.toNat_lt
    rw [toNat_sub_eq, UInt32.toNat_add]
    split <;> omega
  have first := @posdiff_le (s.limit + s.prevOvlimit) (2 * count)
    (s.limit.toNat + s.prevOvlimit.toNat) (2 * count.toNat) (UInt32.toNat_add _ _)
    (UInt32.toNat_mul _ _) (by omega) (by omega) (by omega)
  have second := @posdiff_le s.prevLastObjCnt s.prevOvlimit s.prevLastObjCnt.toNat
    s.prevOvlimit.toNat (Nat.mod_eq_of_lt last_lt).symm (Nat.mod_eq_of_lt (by omega)).symm
    (by omega) last_lt (by omega)
  have first_lt := posdiff_lt (s.limit + s.prevOvlimit) (2 * count)
  have second_lt := posdiff_lt s.prevLastObjCnt s.prevOvlimit
  unfold slack exactSlack
  rw [same, toNat_max]
  by_cases over_ : s.prevOvlimit ≠ 0
  · rw [if_pos over_, if_pos over_]
    omega
  · rw [if_neg over_, if_neg over_, UInt32.toNat_zero]
    omega

theorem lowest_le (s : DynamicQueueLimits) (count : UInt32) :
    (s.lowest count).toNat ≤ (s.slack count).toNat ∧
      (s.lowest count).toNat ≤ s.lowestSlack.toNat := by
  unfold lowest
  split
  case isTrue lt => exact ⟨le_rfl, le_of_lt (lt_iff_toNat_lt.mp lt)⟩
  case isFalse le => exact ⟨Nat.le_of_not_lt fun lt => le (lt_iff_toNat_lt.mpr lt),
    le_rfl⟩

/-- What the limit has to keep is within it. -/
structure Kept (config : DqlConfig) (w : World) : Prop where
  limit_lt : w.limits.limit.toNat < 2 ^ 31
  ov_lt : w.limits.prevOvlimit.toNat < 2 ^ 31
  bounded : bounded config w.limits.limit = w.limits.limit ∨
    w.limits.prevNumQueued = w.limits.numCompleted ∧ w.needs = []
  kept : ∀ n ∈ w.needs, n ≤ w.limits.limit.toNat - w.limits.lowestSlack.toNat

theorem start_kept (start : Start w) : Kept config w := by
  obtain ⟨s, now, rfl⟩ := start
  exact ⟨Nat.two_pow_pos 31, Nat.two_pow_pos 31, .inr ⟨rfl, rfl⟩,
    fun _ mem => absurd mem List.not_mem_nil⟩

theorem Kept.of_busy (kept : Kept config w) (busy : w.limits.Busy count) :
    DynamicQueueLimits.bounded config w.limits.limit = w.limits.limit := by
  refine kept.bounded.resolve_right fun fresh => busy.2.2.1 ?_
  unfold prevInprogress
  rw [fresh.1]
  exact UInt32.sub_self _

/-- What is needed after a busy completion is left by its lowest slack. -/
theorem Kept.needs (kept : Kept config w)
    (fits : 2 * count.toNat ≤ w.limits.limit.toNat + w.limits.prevOvlimit.toNat + 2 ^ 31) :
    ∀ n ∈ need w.limits count :: w.needs,
      n ≤ w.limits.limit.toNat - (w.limits.lowest count).toNat := by
  have slack := (slack_le kept.limit_lt kept.ov_lt fits).1
  obtain ⟨below, before⟩ := lowest_le w.limits count
  intro n mem
  rcases List.mem_cons.mp mem with rfl | mem
  · unfold need
    omega
  · have := kept.kept n mem
    omega

theorem adjusted_busy (busy : s.Busy count) : s.adjusted count config now =
      if s.slackStartTime + config.slackHoldTime < now then
        (posdiff s.limit (s.lowest count), uintMax, now)
      else (s.limit, s.lowest count, s.slackStartTime) := by
  unfold adjusted
  rw [if_neg busy.1, if_pos busy]

/-- **A reduction** keeps what is needed. -/
theorem reduction_keeps (kept : Kept config w) (reduces : Reduces config w.limits now count)
    (fits : 2 * count.toNat ≤ w.limits.limit.toNat + w.limits.prevOvlimit.toNat + 2 ^ 31) :
    ∀ n ∈ need w.limits count :: w.needs,
      n ≤ (bounded config (w.limits.adjusted count config now).1).toNat := by
  have slack_lt := (slack_le kept.limit_lt kept.ov_lt fits).2
  have lowest := (lowest_le w.limits count).1
  have inside := congrArg UInt32.toNat (kept.of_busy reduces.1)
  rw [toNat_bounded] at inside
  intro n mem
  have le := kept.needs fits n mem
  rw [adjusted_busy reduces.1, if_pos reduces.2, toNat_bounded, posdiff_eq kept.limit_lt (by omega)]
  omega

theorem bounded_bounded (config : DqlConfig) (limit : UInt32) :
    bounded config (bounded config limit) = bounded config limit := by
  apply UInt32.toNat_inj.mp
  rw [toNat_bounded, toNat_bounded]
  omega

theorem step_kept {w' : World} {e : Event} (kept : Kept config w) (fits : Fits w e)
    (done : step config w e = some w') : Kept config w' := by
  cases e with
  | queued count =>
    obtain ⟨limits, here, done⟩ := Option.bind_eq_some_iff.mp done
    cases done
    unfold queued at here
    split at here
    case isFalse => nomatch here
    case isTrue =>
      cases here
      exact { kept with }
  | completed now count =>
    rw [step] at done
    split at done
    case isFalse => nomatch done
    case isTrue inside =>
      obtain ⟨limits, here, done⟩ := Option.bind_eq_some_iff.mp done
      cases done
      obtain ⟨_, _, limit, lowestSlack, _, ov_lt⟩ := completed_spec here
      have limit_lt : limits.limit.toNat < 2 ^ 31 := by
        have most := maxLimit_lt config
        rw [limit, toNat_bounded]
        omega
      refine ⟨limit_lt, ov_lt, .inl (by rw [limit, bounded_bounded]), fun n mem => ?_⟩
      by_cases restarts : w.limits.Starved count ∨ Reduces config w.limits now count
      · rw [if_pos restarts] at mem
        exact absurd mem List.not_mem_nil
      rw [if_neg restarts] at mem
      obtain ⟨fed, waits⟩ := not_or.mp restarts
      by_cases busy : w.limits.Busy count
      · rw [if_pos busy] at mem
        rw [adjusted_busy busy, if_neg fun due => waits ⟨busy, due⟩] at limit lowestSlack
        rw [kept.of_busy busy] at limit
        rw [limit, lowestSlack]
        exact kept.needs (fits busy) n mem
      · rw [if_neg busy] at mem
        have same : w.limits.adjusted count config now =
            (w.limits.limit, w.limits.lowestSlack, w.limits.slackStartTime) := by
          unfold adjusted
          rw [if_neg fed, if_neg busy]
        rw [same] at limit lowestSlack
        rcases kept.bounded with bounded | ⟨_, fresh⟩
        · rw [limit, lowestSlack, bounded]
          exact kept.kept n mem
        · rw [fresh] at mem
          exact absurd mem List.not_mem_nil

/-! ## The claim -/

/-- **Dynamic queue limits.** After every completion of every run the limit is within its
bounds exactly when these are in order, and `Available` is what is left of it exactly when no
more than `2^31` bytes beyond it are in flight. In a run whose busy completions fit, a
reduction leaves what was needed at each busy completion of the hold interval. -/
theorem dynamicQueueLimits {config : DqlConfig} {w w' : World} {now : Nat} {count : UInt32}
    (reaches : Machine.Reaches (step config) (fun _ _ => True) Start w)
    (done : step config w (.completed now count) = some w') :
    (config.minLimit ≤ w'.limits.limit ∧ w'.limits.limit ≤ config.maxLimit ↔
        config.minLimit ≤ config.maxLimit) ∧
      (w'.limits.available = (w'.limits.limit.toNat : Int) - (w'.queued - w'.completed : Nat) ↔
        w'.queued - w'.completed ≤ w'.limits.limit.toNat + 2 ^ 31) ∧
      (Machine.Reaches (step config) Fits Start w → Fits w (.completed now count) →
        Reduces config w.limits now count →
          ∀ n ∈ need w.limits count :: w.needs, n ≤ w'.limits.limit.toNat) := by
  have counted : Counted w := reaches.invariant Counted (fun _ => start_counted)
    (fun _ _ _ counted _ done => step_counted counted done)
  have counted' := step_counted counted done
  rw [step] at done
  split at done
  case isFalse => nomatch done
  case isTrue =>
    obtain ⟨limits, here, done⟩ := Option.bind_eq_some_iff.mp done
    obtain rfl := Option.some.inj done
    obtain ⟨_, _, limit, _, adj, _⟩ := completed_spec here
    have value := toNat_bounded config (w.limits.adjusted count config now).1
    rw [← limit] at value
    have limit_lt : limits.limit.toNat < 2 ^ 31 := by
      have most := maxLimit_lt config
      omega
    refine ⟨?_, available_iff counted' limit_lt adj, fun fitted fits reduces => ?_⟩
    · rw [le_iff_toNat_le, le_iff_toNat_le, le_iff_toNat_le]
      dsimp only
      omega
    · have kept : Kept config w := fitted.invariant (Kept config) (fun _ => start_kept)
        (fun _ _ _ kept fits done => step_kept kept fits done)
      rw [limit]
      exact reduction_keeps kept reduces (fits reduces.1)

/-- The default attributes, without a hold time. -/
def defaults : DqlConfig := ⟨dqlMaxLimit, 0, 0, UInt32.le_refl _⟩

def fresh : World := { limits := reset {} 0 }

theorem start_fresh : Start fresh := ⟨{}, 0, rfl⟩

def hundred : World :=
  { limits := { lastObjCnt := 100, numQueued := 100 }, queued := 100 }

theorem dynamicQueueLimits_hundred : ∃ w', step defaults hundred (.completed 1 100) = some w' ∧
      (defaults.minLimit ≤ w'.limits.limit ∧ w'.limits.limit ≤ defaults.maxLimit ↔
        defaults.minLimit ≤ defaults.maxLimit) ∧
      (w'.limits.available = (w'.limits.limit.toNat : Int) - (w'.queued - w'.completed : Nat) ↔
        w'.queued - w'.completed ≤ w'.limits.limit.toNat + 2 ^ 31) ∧
      (Machine.Reaches (step defaults) Fits Start hundred → Fits hundred (.completed 1 100) →
        Reduces defaults hundred.limits 1 100 →
          ∀ n ∈ need hundred.limits 100 :: hundred.needs, n ≤ w'.limits.limit.toNat) :=
  ⟨_, rfl, dynamicQueueLimits
    (.next (.start start_fresh) trivial (show step defaults fresh (.queued 100) = some hundred from
      rfl)) rfl⟩

/-- What a run comes to: the limit, what `Available` returns, the bytes in flight and what is
needed for the next completion. -/
def outcome (config : DqlConfig) (events : List Event) (count : UInt32) :
    Option (UInt32 × Int × Nat × Nat) :=
  (events.foldlM (step config) fresh).map fun w =>
    (w.limits.limit, w.limits.available, w.queued - w.completed, need w.limits count)

/-- Nine objects of the largest size make `Available` positive with a limit of zero; a
completion of more than `2^30` bytes takes a needed limit of 10 away; and bounds in the wrong
order leave the limit outside of them. -/
theorem dynamicQueueLimits_fails :
    outcome defaults (List.replicate 9 (.queued 268435455) ++ [.completed 1 1]) 0 =
        some (0, 1879048202, 2415919094, 0) ∧
      outcome defaults ([.queued 10, .completed 1 0] ++ List.replicate 4 (.queued 268435455) ++
        [.queued 5000, .completed 2 10]) 1073741924 = some (10, -1073746810, 1073746820, 10) ∧
      outcome defaults ([.queued 10, .completed 1 0] ++ List.replicate 4 (.queued 268435455) ++
        [.queued 5000, .completed 2 10, .completed 3 1073741924]) 0 = some (0, -4896, 4896, 0) ∧
      outcome ⟨5, 10, 0, by decide⟩ [.queued 1, .completed 1 0] 0 = some (5, 4, 1, 0) := by
  decide

end Dql

end Ns3.Network
