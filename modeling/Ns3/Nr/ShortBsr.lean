import Ns3.Nr.SchedulerLcg

/-!
# `NrMacShortBsrCe`

A buffer size goes to the gNB as one of 32 levels. The scheduler takes the queue of a
logical channel group from the level, so that a level has to stand for enough bytes.
-/

namespace Ns3.Nr

open List

/-- `lookupVector` of `FromBytesToLevel`. -/
def levelLookup : List Nat :=
  [0, 10, 14, 20, 28, 38, 53, 74, 102, 142, 198,
   276, 384, 535, 745, 1038, 1446, 2014, 2806, 3909, 5446, 7587,
   10570, 14726, 20516, 28581, 39818, 55474, 77284, 107669, 150000]

/-- `lookupVector` of `FromLevelToBytes`. -/
def bytesLookup : List Nat :=
  [0, 10, 14, 20, 28, 38, 53, 74, 102, 142, 198,
   276, 384, 535, 745, 1038, 1446, 2014, 2806, 3909, 5446, 7587,
   10570, 14726, 20516, 28581, 39818, 55474, 77284, 107669, 150000]

/-- The loop stops at the first entry that is not below the size. -/
def fromBytesToLevel (bufferSize : Nat) : Nat :=
  if levelLookup.getLastD 0 < bufferSize then 31
  else if bufferSize = 0 then 0
  else levelLookup.findIdx fun size => bufferSize ≤ size

def fromLevelToBytes (bufferLevel : Nat) : Nat :=
  if bytesLookup.length - 1 < bufferLevel then 150000 * 8
  else bytesLookup.getD bufferLevel 0

/-! ## Levels and bytes -/

theorem levelLookup_mono : ∀ j < 31, ∀ i ≤ j, levelLookup.getD i 0 ≤ levelLookup.getD j 0 := by
  decide

theorem getD_eq {i : Nat} (inside : i < levelLookup.length) :
    levelLookup.getD i 0 = levelLookup[i] := (getElem_eq_getD 0).symm

/-- **Levels and bytes** are connected: a level stands for a size just when it is not below
the level of the size. -/
theorem fromBytesToLevel_le_iff {n level : Nat} (inside : level ≤ 30) :
    fromBytesToLevel n ≤ level ↔ n ≤ fromLevelToBytes level := by
  have last : levelLookup.getLastD 0 = 150000 := rfl
  have length : levelLookup.length = 31 := rfl
  have bytes : fromLevelToBytes level = levelLookup.getD level 0 := by
    exact if_neg (not_lt.mpr inside)
  have most : levelLookup.getD level 0 ≤ 150000 := levelLookup_mono 30 (by decide) level inside
  rw [bytes]
  unfold fromBytesToLevel
  rw [last]
  split
  · omega
  split
  · omega
  constructor
  · intro le
    have reached := @findIdx_getElem _ (fun size => decide (n ≤ size)) levelLookup (by omega)
    have order := levelLookup_mono level (by omega) _ le
    rw [getD_eq (by omega)] at order
    exact le_trans (of_decide_eq_true reached) order
  · intro le
    apply Nat.le_of_not_lt
    intro before
    have below := not_of_lt_findIdx before
    rw [getD_eq (by omega)] at le
    rw [decide_eq_true le] at below
    exact Bool.noConfusion below

theorem fromBytesToLevel_le (n : Nat) : fromBytesToLevel n ≤ 31 := by
  unfold fromBytesToLevel
  split
  · decide
  split
  · decide
  exact findIdx_le_length

theorem fromBytesToLevel_mono : Monotone fromBytesToLevel := by
  intro m n le
  rcases lt_or_ge (fromBytesToLevel n) 31 with inside | outside
  · have reached := (fromBytesToLevel_le_iff (Nat.le_of_lt_succ inside)).mp le_rfl
    exact (fromBytesToLevel_le_iff (Nat.le_of_lt_succ inside)).mpr (le_trans le reached)
  · exact le_trans (fromBytesToLevel_le m) outside

theorem fromLevelToBytes_fromBytesToLevel (n : Nat) :
    n ≤ fromLevelToBytes (fromBytesToLevel n) ↔ n ≤ 1200000 := by
  rcases lt_or_ge (fromBytesToLevel n) 31 with inside | outside
  · have reached := (fromBytesToLevel_le_iff (Nat.le_of_lt_succ inside)).mp le_rfl
    have most : n ≤ 150000 := (fromBytesToLevel_le_iff (le_refl 30)).mp (Nat.le_of_lt_succ inside)
    exact iff_of_true reached (le_trans most (by decide))
  · have top : fromBytesToLevel n = 31 := le_antisymm (fromBytesToLevel_le n) outside
    rw [top]
    exact Iff.rfl

theorem fromLevelToBytes_lt : ∀ level ≤ 31, fromLevelToBytes level < 2 ^ 32 := by decide

theorem fromBytesToLevel_fromLevelToBytes :
    ∀ level ≤ 30, fromBytesToLevel (fromLevelToBytes level) = level := by
  decide

/-! ## The scheduler -/

namespace NrMacSchedulerLCG

/-- `UpdateInfo` with the size of the group: with more than one channel it aborts, and with
none it divides by zero. -/
def updateInfo (lcg : NrMacSchedulerLCG) (lcgQueueSize : UInt32) : Option NrMacSchedulerLCG :=
  if lcg.lcMap.length = 1 then
    some {
      lcMap := lcg.lcMap.map fun lc =>
        (lc.1, { lc.2 with
          rlcTransmissionQueueSize := lcgQueueSize / .ofNat lcg.lcMap.length })
      keys := by
        rw [map_map]
        exact lcg.keys }
  else none

end NrMacSchedulerLCG

/-- The groups of a UE, by their id. -/
abbrev UlLcgs : Type := List (UInt8 × NrMacSchedulerLCG)

def UlLcgs.find (groups : UlLcgs) (lcg : UInt8) : Option NrMacSchedulerLCG :=
  (groups.find? fun group => group.1 = lcg).map Prod.snd

/-- One turn of `BSRReceivedFromUe`; `none` is an abort. -/
def updateLcg (bufferStatus : List Nat) (groups : UlLcgs) (lcg : UInt8) : Option UlLcgs := do
  let bsrId ← bufferStatus[lcg.toNat]?
  let bufSize : UInt32 := .ofNat (fromLevelToBytes bsrId)
  match groups.find lcg with
  | none => if 0 < bufSize then none else some groups
  | some group =>
    let group' ← group.updateInfo bufSize
    some <| groups.map fun other => if other.1 = lcg then (other.1, group') else other

def bsrReceivedFromUe (bufferStatus : List Nat) (groups : UlLcgs) : Option UlLcgs :=
  [0, 1, 2, 3].foldlM (updateLcg bufferStatus) groups

/-- The group has the bytes of the level in the queue of its one channel, or there is no
group and the level is empty. -/
def Holds (groups : UlLcgs) (lcg : UInt8) (bufSize : UInt32) : Prop :=
  match groups.find lcg with
  | none => bufSize = 0
  | some group => ∃ lcId lc, group.lcMap = [(lcId, lc)] ∧ lc.rlcTransmissionQueueSize = bufSize

theorem find_update (groups : UlLcgs) (lcg : UInt8) (group' : NrMacSchedulerLCG) (other : UInt8) :
    UlLcgs.find (groups.map fun entry => if entry.1 = lcg then (entry.1, group') else entry)
      other = (groups.find other).map fun group => if other = lcg then group' else group := by
  unfold UlLcgs.find
  rw [find?_map]
  have same : (fun entry : UInt8 × NrMacSchedulerLCG => decide (entry.1 = other)) ∘ (fun entry =>
      if entry.1 = lcg then (entry.1, group') else entry) =
      fun entry => decide (entry.1 = other) := by
    funext entry
    dsimp only [Function.comp]
    split <;> rfl
  rw [same]
  cases found : groups.find? fun entry => decide (entry.1 = other) with
  | none => rfl
  | some entry =>
    have key : entry.1 = other := of_decide_eq_true (find?_some found :)
    subst key
    simp only [Option.map_some]
    split <;> rfl

theorem updateInfo_eq {lcg lcg' : NrMacSchedulerLCG} {size : UInt32}
    (done : lcg.updateInfo size = some lcg') :
    ∃ lcId lc, lcg'.lcMap = [(lcId, lc)] ∧ lc.rlcTransmissionQueueSize = size := by
  unfold NrMacSchedulerLCG.updateInfo at done
  split at done
  case isFalse => nomatch done
  case isTrue one =>
    obtain ⟨⟨lcId, lc⟩, single⟩ := length_eq_one_iff.mp one
    cases done
    dsimp only
    rw [single]
    exact ⟨lcId, _, rfl, UInt32.toNat_inj.mp (by rw [UInt32.toNat_div]; exact Nat.div_one _)⟩

/-- A turn is about one group, and leaves the others as they are. -/
theorem updateLcg_spec {bufferStatus : List Nat} {groups groups' : UlLcgs} {lcg : UInt8}
    (done : updateLcg bufferStatus groups lcg = some groups') :
    (∃ level, bufferStatus[lcg.toNat]? = some level ∧
      Holds groups' lcg (.ofNat (fromLevelToBytes level))) ∧
    ∀ other, other ≠ lcg → groups'.find other = groups.find other := by
  obtain ⟨level, found, done⟩ := Option.bind_eq_some_iff.mp done
  cases known : groups.find lcg with
  | none =>
    rw [known] at done
    dsimp only at done
    split at done
    case isTrue => nomatch done
    case isFalse empty =>
      cases done
      refine ⟨⟨level, found, ?_⟩, fun _ _ => rfl⟩
      unfold Holds
      rw [known]
      exact UInt32.le_antisymm (UInt32.not_lt.mp empty) (UInt32.zero_le)
  | some group =>
    rw [known] at done
    obtain ⟨group', updated, done⟩ := Option.bind_eq_some_iff.mp done
    cases done
    refine ⟨⟨level, found, ?_⟩, fun other differs => ?_⟩
    · unfold Holds
      rw [find_update, known, Option.map_some, if_pos rfl]
      exact updateInfo_eq updated
    · rw [find_update]
      simp [differs]

theorem foldlM_updateLcg {bufferStatus : List Nat} {lcgs : List UInt8} (once : lcgs.Nodup)
    {groups groups' : UlLcgs} (done : lcgs.foldlM (updateLcg bufferStatus) groups = some groups') :
    (∀ lcg ∈ lcgs, ∃ level, bufferStatus[lcg.toNat]? = some level ∧
      Holds groups' lcg (.ofNat (fromLevelToBytes level))) ∧
    ∀ other, other ∉ lcgs → groups'.find other = groups.find other := by
  induction lcgs generalizing groups with
  | nil =>
    cases done
    exact ⟨fun _ mem => absurd mem not_mem_nil, fun _ _ => rfl⟩
  | cons lcg lcgs ih =>
    obtain ⟨new, once⟩ := nodup_cons.mp once
    rw [foldlM_cons] at done
    obtain ⟨between, first, done⟩ := Option.bind_eq_some_iff.mp done
    obtain ⟨⟨level, found, holds⟩, kept⟩ := updateLcg_spec first
    obtain ⟨inside, outside⟩ := ih once done
    refine ⟨fun other mem => ?_, fun other apart => ?_⟩
    · rcases mem_cons.mp mem with rfl | mem
      · refine ⟨level, found, ?_⟩
        unfold Holds at holds ⊢
        rw [outside other new]
        exact holds
      · exact inside other mem
    · rw [mem_cons, not_or] at apart
      rw [outside other apart.2, kept other apart.1]

/-- **Short BSR.** The level of a size stands for at least the size exactly up to 1200000
bytes, for 1200000 bytes beyond, and the scheduler queues as many bytes as the level stands
for. -/
theorem shortBsr : (∀ n, n ≤ fromLevelToBytes (fromBytesToLevel n) ↔ n ≤ 1200000) ∧
    (∀ n, 1200000 < n → fromLevelToBytes (fromBytesToLevel n) = 1200000) ∧
    Monotone fromBytesToLevel ∧
    (∀ level ≤ 30, fromBytesToLevel (fromLevelToBytes level) = level) ∧
    ∀ (sizes : List Nat) (groups groups' : UlLcgs),
      bsrReceivedFromUe (sizes.map fromBytesToLevel) groups = some groups' →
      ∀ lcg ∈ ([0, 1, 2, 3] : List UInt8), ∃ n, sizes[lcg.toNat]? = some n ∧ (n ≤ 1200000 →
        match groups'.find lcg with
        | none => n = 0
        | some group => ∃ lcId lc, group.lcMap = [(lcId, lc)] ∧
          n ≤ lc.rlcTransmissionQueueSize.toNat) := by
  refine ⟨fromLevelToBytes_fromBytesToLevel, fun n beyond => ?_, fromBytesToLevel_mono,
    fromBytesToLevel_fromLevelToBytes, fun sizes groups groups' done lcg mem => ?_⟩
  · have top : fromBytesToLevel n = 31 := by
      exact if_pos (lt_trans (by decide : 150000 < 1200000) beyond)
    rw [top]
    rfl
  · obtain ⟨level, found, holds⟩ := (foldlM_updateLcg (by decide) done).1 lcg mem
    rw [getElem?_map, Option.map_eq_some_iff] at found
    obtain ⟨n, found, rfl⟩ := found
    refine ⟨n, found, fun few => ?_⟩
    have covers := (fromLevelToBytes_fromBytesToLevel n).mpr few
    have fits := fromLevelToBytes_lt _ (fromBytesToLevel_le n)
    unfold Holds at holds
    split
    case h_1 unknown =>
      rw [unknown] at holds
      have zero := congrArg UInt32.toNat holds
      rw [UInt32.toNat_ofNat_of_lt' fits, UInt32.toNat_zero] at zero
      omega
    case h_2 group known =>
      rw [known] at holds
      obtain ⟨lcId, lc, single, size⟩ := holds
      refine ⟨lcId, lc, single, ?_⟩
      rw [size, UInt32.toNat_ofNat_of_lt' fits]
      exact covers

/-- A queue of 1200001 bytes is reported as 1200000. -/
theorem shortBsr_underReports : ¬ ∀ n, n ≤ fromLevelToBytes (fromBytesToLevel n) := by
  intro covers
  exact absurd (covers 1200001) (by decide)

end Ns3.Nr
