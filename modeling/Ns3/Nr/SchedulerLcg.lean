import Mathlib

/-!
# `NrMacSchedulerLC` and `NrMacSchedulerLCG`

The queues of a logical channel as the MAC scheduler knows them, and what a grant takes
out of them. `none` is a failed `at`.
-/

namespace Ns3.Nr

open UInt32

/-- The resource type of the QCI of a flow. -/
inductive ResourceType where
  | nonGbr
  | gbr
  | dgbr
  deriving DecidableEq

/-- The type of an allocation. -/
inductive Direction where
  | dl
  | ul
  deriving DecidableEq

structure NrMacSchedulerLC where
  rlcTransmissionQueueSize : UInt32
  rlcRetransmissionQueueSize : UInt32
  rlcStatusPduSize : UInt16
  resourceType : ResourceType
  eRabGuaranteedBitrateDl : UInt64
  deriving DecidableEq

namespace NrMacSchedulerLC

variable (lc : NrMacSchedulerLC)

def getTotalSize : UInt32 :=
  lc.rlcTransmissionQueueSize + lc.rlcRetransmissionQueueSize + lc.rlcStatusPduSize.toUInt32

/-- The bytes of the three queues, without the wrap of `GetTotalSize`. -/
def backlog : Nat :=
  lc.rlcStatusPduSize.toNat + lc.rlcRetransmissionQueueSize.toNat +
    lc.rlcTransmissionQueueSize.toNat

end NrMacSchedulerLC

/-- For SRB1 it is better to overestimate the overhead. -/
def rlcOverhead (lcId : UInt8) (type : Direction) : UInt32 :=
  if lcId = 1 ∧ type = .dl then 4 else 2

/-- The least queue that is left, so that the next grant is large enough for the RLC. -/
def atLeast (least left : UInt32) : UInt32 := if 0 < left ∧ left < least then least else left

/-- `AssignedData` on the channel. -/
def NrMacSchedulerLC.assignedData (lc : NrMacSchedulerLC) (lcId : UInt8) (size : UInt32)
    (type : Direction) : NrMacSchedulerLC :=
  if 0 < lc.rlcStatusPduSize ∧ lc.rlcStatusPduSize.toUInt32 ≤ size then
    { lc with rlcStatusPduSize := 0 }
  else if 0 < lc.rlcRetransmissionQueueSize ∧ lc.rlcRetransmissionQueueSize ≤ size then
    { lc with rlcRetransmissionQueueSize := 0 }
  else if 0 < lc.rlcTransmissionQueueSize then
    let granted := size - rlcOverhead lcId type
    let left :=
      if lc.rlcTransmissionQueueSize ≤ granted then 0
      else lc.rlcTransmissionQueueSize - granted
    { lc with
      rlcTransmissionQueueSize :=
        match type with
        | .ul => atLeast 12 left
        | .dl => atLeast 10 left }
  else lc

/-- `m_lcMap` in the order of its iteration. -/
structure NrMacSchedulerLCG where
  lcMap : List (UInt8 × NrMacSchedulerLC)
  keys : (lcMap.map Prod.fst).Nodup

namespace NrMacSchedulerLCG

variable (lcg : NrMacSchedulerLCG)

def getLCId : List UInt8 := lcg.lcMap.map Prod.fst

/-- `m_lcMap.at (lcId)` -/
def getLC (lcId : UInt8) : Option NrMacSchedulerLC :=
  (lcg.lcMap.find? fun lc => lc.1 = lcId).map Prod.snd

def assignedData (lcId : UInt8) (size : UInt32) (type : Direction) : Option NrMacSchedulerLCG :=
  (lcg.getLC lcId).map fun _ =>
    { lcMap := lcg.lcMap.map fun lc =>
        if lc.1 = lcId then (lc.1, lc.2.assignedData lcId size type) else lc
      keys := by
        have same : (lcg.lcMap.map fun lc =>
            if lc.1 = lcId then (lc.1, lc.2.assignedData lcId size type) else lc).map Prod.fst =
            lcg.lcMap.map Prod.fst := by
          rw [List.map_map]
          apply List.map_congr_left
          intro lc _
          dsimp only [Function.comp]
          split <;> rfl
        rw [same]
        exact lcg.keys }

theorem getLC_assignedData {lcg lcg' : NrMacSchedulerLCG} {lcId : UInt8} {size : UInt32}
    {type : Direction} (done : lcg.assignedData lcId size type = some lcg') (other : UInt8) :
    lcg'.getLC other = (lcg.getLC other).map fun lc =>
      if other = lcId then lc.assignedData lcId size type else lc := by
  obtain ⟨_, _, rfl⟩ := Option.map_eq_some_iff.mp done
  unfold getLC
  rw [List.find?_map]
  have same : (fun lc : UInt8 × NrMacSchedulerLC => decide (lc.1 = other)) ∘ (fun lc =>
      if lc.1 = lcId then (lc.1, lc.2.assignedData lcId size type) else lc) =
      fun lc => decide (lc.1 = other) := by
    funext lc
    dsimp only [Function.comp]
    split <;> rfl
  rw [same]
  cases found : lcg.lcMap.find? fun lc => decide (lc.1 = other) with
  | none => rfl
  | some lc =>
    have key : lc.1 = other := of_decide_eq_true (List.find?_some found :)
    subst key
    simp only [Option.map_some]
    split <;> rfl

end NrMacSchedulerLCG

/-! ## Bookkeeping -/

/-- The backlog of the channel goes down by no more than the grant, and not at all by a
grant that is smaller than the overhead. -/
structure KeepsBacklog (lc lc' : NrMacSchedulerLC) (size overhead : UInt32) : Prop where
  most : lc.backlog ≤ lc'.backlog + size.toNat
  unchanged : size < overhead → lc'.backlog = lc.backlog

/-- The grant is as large as the overhead, or there is nothing that it is taken from. -/
def Bookable (lc : NrMacSchedulerLC) (size overhead : UInt32) : Prop :=
  overhead ≤ size ∨ ¬ (0 < lc.rlcStatusPduSize ∧ lc.rlcStatusPduSize.toUInt32 ≤ size) ∧
      ¬ (0 < lc.rlcRetransmissionQueueSize ∧ lc.rlcRetransmissionQueueSize ≤ size) ∧
      lc.rlcTransmissionQueueSize = 0

theorem overhead_bounds (lcId : UInt8) (type : Direction) :
    2 ≤ (rlcOverhead lcId type).toNat ∧ (rlcOverhead lcId type).toNat ≤ 4 := by
  unfold rlcOverhead
  split <;> decide

theorem toNat_atLeast (least left : UInt32) : (atLeast least left).toNat =
    if 0 < left.toNat ∧ left.toNat < least.toNat then least.toNat else left.toNat := by
  have small : 0 < left ∧ left < least ↔ 0 < left.toNat ∧ left.toNat < least.toNat := by
    simp [lt_iff_toNat_lt]
  unfold atLeast
  by_cases raised : 0 < left ∧ left < least
  · rw [if_pos raised, if_pos (small.mp raised)]
  · rw [if_neg raised, if_neg fun raised' => raised (small.mpr raised')]

theorem toNat_sub_cases (a b : UInt32) : (a - b).toNat =
    if b.toNat ≤ a.toNat then a.toNat - b.toNat else a.toNat + 2 ^ 32 - b.toNat := by
  have a_lt := a.toNat_lt
  have b_lt := b.toNat_lt
  rw [UInt32.toNat_sub]
  split <;> omega

/-- What a grant leaves in the transmission queue: the difference wraps. -/
def leftAfter (type : Direction) (tx size overhead : Nat) : Nat :=
  let granted := if overhead ≤ size then size - overhead else size + 2 ^ 32 - overhead
  let least := match type with
    | .ul => 12
    | .dl => 10
  if 0 < tx - granted ∧ tx - granted < least then least else tx - granted

theorem backlog_assignedData (lc : NrMacSchedulerLC) (lcId : UInt8) (size : UInt32)
    (type : Direction) : (lc.assignedData lcId size type).backlog =
      let status := lc.rlcStatusPduSize.toNat
      let retx := lc.rlcRetransmissionQueueSize.toNat
      let tx := lc.rlcTransmissionQueueSize.toNat
      if 0 < status ∧ status ≤ size.toNat then retx + tx
      else if 0 < retx ∧ retx ≤ size.toNat then status + tx
      else if 0 < tx then
        status + retx + leftAfter type tx size.toNat (rlcOverhead lcId type).toNat
      else lc.backlog := by
  have status : 0 < lc.rlcStatusPduSize ∧ lc.rlcStatusPduSize.toUInt32 ≤ size ↔
      0 < lc.rlcStatusPduSize.toNat ∧ lc.rlcStatusPduSize.toNat ≤ size.toNat := by
    simp [UInt16.lt_iff_toNat_lt, le_iff_toNat_le]
  have retx : 0 < lc.rlcRetransmissionQueueSize ∧ lc.rlcRetransmissionQueueSize ≤ size ↔
      0 < lc.rlcRetransmissionQueueSize.toNat ∧
        lc.rlcRetransmissionQueueSize.toNat ≤ size.toNat := by
    simp [lt_iff_toNat_lt, le_iff_toNat_le]
  have tx : 0 < lc.rlcTransmissionQueueSize ↔ 0 < lc.rlcTransmissionQueueSize.toNat := by
    simp [lt_iff_toNat_lt]
  have granted := toNat_sub_cases size (rlcOverhead lcId type)
  have left : (if lc.rlcTransmissionQueueSize ≤ size - rlcOverhead lcId type then 0
      else lc.rlcTransmissionQueueSize - (size - rlcOverhead lcId type)).toNat =
        lc.rlcTransmissionQueueSize.toNat - (size - rlcOverhead lcId type).toNat := by
    split
    case isTrue all =>
      rw [le_iff_toNat_le] at all
      exact (Nat.sub_eq_zero_of_le all).symm
    case isFalse some_ =>
      rw [le_iff_toNat_le] at some_
      rw [toNat_sub_cases, if_pos (by omega)]
  unfold NrMacSchedulerLC.assignedData NrMacSchedulerLC.backlog
  by_cases a : 0 < lc.rlcStatusPduSize ∧ lc.rlcStatusPduSize.toUInt32 ≤ size
  · rw [if_pos a, if_pos (status.mp a)]
    exact congrArg (· + _) (Nat.zero_add _)
  rw [if_neg a, if_neg (status.not.mp a)]
  by_cases b : 0 < lc.rlcRetransmissionQueueSize ∧ lc.rlcRetransmissionQueueSize ≤ size
  · rw [if_pos b, if_pos (retx.mp b)]
    rfl
  rw [if_neg b, if_neg (retx.not.mp b)]
  by_cases c : 0 < lc.rlcTransmissionQueueSize
  · rw [if_pos c, if_pos (tx.mp c)]
    cases type <;>
    · dsimp only
      rw [toNat_atLeast, left, granted]
      rfl
  · rw [if_neg c, if_neg (tx.not.mp c)]

/-- A grant that is large enough takes no more than its size. -/
theorem le_leftAfter (type : Direction) {tx size overhead : Nat} (enough : overhead ≤ size) :
    tx ≤ leftAfter type tx size overhead + size := by
  simp only [leftAfter, if_pos enough]
  cases type <;> dsimp only <;> split <;> omega

theorem leftAfter_ne (type : Direction) {tx size overhead : Nat} (small : size < overhead)
    (bound : overhead ≤ 4) (some_ : 0 < tx) (below : tx < 2 ^ 32) :
    leftAfter type tx size overhead ≠ tx := by
  have wraps : ¬ overhead ≤ size := by omega
  simp only [leftAfter, if_neg wraps]
  cases type <;> dsimp only <;> split <;> omega

/-- **A grant.** A grant keeps the backlog of its channel exactly when it is as large as the
overhead or is not used. -/
theorem assignedData_keeps_iff (lc : NrMacSchedulerLC) (lcId : UInt8) (size : UInt32)
    (type : Direction) :
    KeepsBacklog lc (lc.assignedData lcId size type) size (rlcOverhead lcId type) ↔
      Bookable lc size (rlcOverhead lcId type) := by
  obtain ⟨low, high⟩ := overhead_bounds lcId type
  have below := lc.rlcTransmissionQueueSize.toNat_lt
  have after := backlog_assignedData lc lcId size type
  have enough := @le_leftAfter type lc.rlcTransmissionQueueSize.toNat size.toNat
    (rlcOverhead lcId type).toNat
  have changes := @leftAfter_ne type lc.rlcTransmissionQueueSize.toNat size.toNat
    (rlcOverhead lcId type).toNat
  have before : lc.backlog = lc.rlcStatusPduSize.toNat + lc.rlcRetransmissionQueueSize.toNat +
    lc.rlcTransmissionQueueSize.toNat := rfl
  have keeps : ∀ lc' : NrMacSchedulerLC, KeepsBacklog lc lc' size (rlcOverhead lcId type) ↔
      lc.backlog ≤ lc'.backlog + size.toNat ∧
        (size.toNat < (rlcOverhead lcId type).toNat → lc'.backlog = lc.backlog) := fun lc' =>
    ⟨fun keeps => ⟨keeps.most, keeps.unchanged⟩, fun keeps => ⟨keeps.1, keeps.2⟩⟩
  have bookable : Bookable lc size (rlcOverhead lcId type) ↔
      (rlcOverhead lcId type).toNat ≤ size.toNat ∨
        ¬ (0 < lc.rlcStatusPduSize.toNat ∧ lc.rlcStatusPduSize.toNat ≤ size.toNat) ∧
          ¬ (0 < lc.rlcRetransmissionQueueSize.toNat ∧
            lc.rlcRetransmissionQueueSize.toNat ≤ size.toNat) ∧
          lc.rlcTransmissionQueueSize.toNat = 0 := by
    unfold Bookable
    simp only [UInt16.lt_iff_toNat_lt, lt_iff_toNat_lt, le_iff_toNat_le,
      UInt16.toNat_toUInt32, UInt16.toNat_zero, UInt32.toNat_zero, ← UInt32.toNat_inj]
  rw [keeps, bookable, after, before]
  dsimp only
  split
  · omega
  split
  · omega
  split
  · omega
  · omega

/-- **Bookkeeping.** A grant to a channel of a group changes that channel alone, and keeps
its backlog exactly when it is as large as the overhead or is not used. -/
theorem bookkeeping_iff {lcg : NrMacSchedulerLCG} {lcId : UInt8} {lc : NrMacSchedulerLC}
    (known : lcg.getLC lcId = some lc) (size : UInt32) (type : Direction) :
    ∃ lcg' lc', lcg.assignedData lcId size type = some lcg' ∧ lcg'.getLC lcId = some lc' ∧
      (∀ other, other ≠ lcId → lcg'.getLC other = lcg.getLC other) ∧
      (KeepsBacklog lc lc' size (rlcOverhead lcId type) ↔
        Bookable lc size (rlcOverhead lcId type)) := by
  obtain ⟨lcg', done⟩ : ∃ lcg', lcg.assignedData lcId size type = some lcg' := by
    unfold NrMacSchedulerLCG.assignedData
    rw [known]
    exact ⟨_, rfl⟩
  have after := NrMacSchedulerLCG.getLC_assignedData done
  refine ⟨lcg', lc.assignedData lcId size type, done, ?_, ?_, assignedData_keeps_iff lc lcId size
    type⟩
  · rw [after, known, Option.map_some, if_pos rfl]
  · intro other differs
    rw [after]
    simp [differs]

/-- A channel with a hundred bytes to transmit, in a group of its own. -/
def oneChannel : NrMacSchedulerLCG := ⟨[(4, ⟨100, 0, 0, .nonGbr, 0⟩)], by decide⟩

theorem bookkeeping_oneChannel : ∃ lcg' lc', oneChannel.assignedData 4 30 .dl = some lcg' ∧
    lcg'.getLC 4 = some lc' ∧ (∀ other, other ≠ 4 → lcg'.getLC other = oneChannel.getLC other) ∧
    (KeepsBacklog ⟨100, 0, 0, .nonGbr, 0⟩ lc' 30 (rlcOverhead 4 .dl) ↔
      Bookable ⟨100, 0, 0, .nonGbr, 0⟩ 30 (rlcOverhead 4 .dl)) :=
  bookkeeping_iff rfl 30 .dl

/-- One byte empties the queue. -/
theorem backlog_forgotten : ∃ lcg', oneChannel.assignedData 4 1 .dl = some lcg' ∧
    lcg'.getLC 4 = some ⟨0, 0, 0, .nonGbr, 0⟩ ∧
    ¬ KeepsBacklog ⟨100, 0, 0, .nonGbr, 0⟩ ⟨0, 0, 0, .nonGbr, 0⟩ 1 (rlcOverhead 4 .dl) := by
  refine ⟨_, rfl, rfl, fun keeps => ?_⟩
  exact absurd keeps.most (by decide)

end Ns3.Nr
