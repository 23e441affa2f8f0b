import Ns3.Nr.HarqFeedback

/-!
# The triggers of the NR scheduler

Each trigger resets the expired processes, merges the feedbacks with those that wait for
symbols, and drops the late ones. Only the downlink drops duplicates.
-/

namespace Ns3.Nr

open HarqFeedback List Option

/-! ## `ResetExpiredHARQ` -/

/-- What the reset does to one process. -/
def HarqProcess.expire (numHarqProcess : Nat) (process : HarqProcess) : HarqProcess :=
  if process.status = .inactive then process
  else if process.timer < numHarqProcess then
    { process with timer := (process.timer + 1) % 256 }
  else process.erase

/-- The reset erases the process. -/
def HarqProcess.Expired (numHarqProcess : Nat) (process : HarqProcess) : Prop :=
  process.status ≠ .inactive ∧ numHarqProcess ≤ process.timer

instance (numHarqProcess : Nat) (process : HarqProcess) :
    Decidable (process.Expired numHarqProcess) := inferInstanceAs (Decidable (_ ∧ _))

namespace NrMacHarqVector

/-- With one decrement for each process that is erased. -/
def resetExpired (numHarqProcess : Nat) (v : NrMacHarqVector) : NrMacHarqVector :=
  { v with
    processes := v.processes.map fun p => (p.1, p.2.expire numHarqProcess)
    usedSize := v.processes.foldl
      (fun used p => if p.2.Expired numHarqProcess then used - 1 else used) v.usedSize }

theorem settled_expire {numHarqProcess : Nat} {process : HarqProcess} (settled : Settled process) :
    Settled (process.expire numHarqProcess) := by
  unfold HarqProcess.expire
  split
  · exact settled
  · split
    · exact ⟨settled.status, settled.dci, settled.reset⟩
    · exact settled_erase process

/-- An active process stays so or is counted out. -/
theorem active_expire (numHarqProcess : Nat) {process : HarqProcess} (settled : Settled process) :
    (process.expire numHarqProcess).active.toNat +
      (if process.Expired numHarqProcess then 1 else 0) = process.active.toNat := by
  unfold HarqProcess.expire HarqProcess.Expired
  by_cases inactive : process.status = .inactive
  · simp [inactive]
  · have busy : process.active = true := settled.status.mpr inactive
    by_cases young : process.timer < numHarqProcess
    · simp [inactive, young]
    · simp [inactive, young, HarqProcess.erase, busy, Nat.le_of_not_lt young]

theorem foldl_expired (numHarqProcess : Nat) {processes : List (Nat × HarqProcess)}
    (settled : ∀ p ∈ processes, Settled p.2) {used : UInt8} (others : Nat)
    (count : used.toNat = (processes.countP fun p => p.2.active) + others) :
    (processes.foldl
      (fun used p => if p.2.Expired numHarqProcess then used - 1 else used) used).toNat =
      (processes.countP fun p => (p.2.expire numHarqProcess).active) + others := by
  induction processes generalizing used others with
  | nil => simpa using count
  | cons p rest ih =>
    rw [forall_mem_cons] at settled
    have own := active_expire numHarqProcess settled.1
    rw [countP_cons] at count ⊢
    rw [foldl_cons]
    have bit : ∀ b : Bool, (if b = true then 1 else 0) = b.toNat := by decide
    rw [bit] at count ⊢
    have next : (if p.2.Expired numHarqProcess then used - 1 else used).toNat =
        (rest.countP fun p => p.2.active) +
          ((p.2.expire numHarqProcess).active.toNat + others) := by
      split
      · rename_i expired
        rw [if_pos expired] at own
        have one : (1 : UInt8) ≤ used := by
          rw [UInt8.le_iff_toNat_le, UInt8.toNat_one]
          omega
        rw [UInt8.toNat_sub_of_le _ _ one, UInt8.toNat_one]
        omega
      · rename_i young
        rw [if_neg young] at own
        omega
    rw [ih settled.2 _ next]
    omega

theorem Counted.resetExpired {v : NrMacHarqVector} (counted : v.Counted) (numHarqProcess : Nat) :
    (v.resetExpired numHarqProcess).Counted where
  keys := by
    rw [NrMacHarqVector.resetExpired, List.map_map]
    exact counted.keys
  size := by
    rw [NrMacHarqVector.resetExpired, length_map]
    exact counted.size
  used := by
    have all := foldl_expired numHarqProcess counted.settled 0 counted.used
    rw [active, NrMacHarqVector.resetExpired, countP_map]
    exact all
  settled := by
    intro p mem
    obtain ⟨q, mem', rfl⟩ := List.mem_map.mp mem
    exact settled_expire (counted.settled q mem')

theorem get_resetExpired (numHarqProcess : Nat) (v : NrMacHarqVector) (id : Nat) :
    (v.resetExpired numHarqProcess).get id =
      (v.get id).map (HarqProcess.expire numHarqProcess) := by
  unfold get resetExpired
  rw [find?_map, Option.map_map, Option.map_map]
  rfl

end NrMacHarqVector

/-- `ResetExpiredHARQ` of every UE. -/
def HarqUeMap.resetExpiredHARQ (ueMap : HarqUeMap) (direction : Direction)
    (numHarqProcess : Nat) : HarqUeMap := fun rnti =>
  (ueMap rnti).map fun ue =>
    ue.setHarqVector direction ((ue.getHarqVector direction).resetExpired numHarqProcess)

theorem HarqUeMap.Counted.resetExpiredHARQ {ueMap : HarqUeMap} (counted : ueMap.Counted)
    (direction : Direction) (numHarqProcess : Nat) :
    (ueMap.resetExpiredHARQ direction numHarqProcess).Counted := by
  intro rnti ue found other
  obtain ⟨old, known, rfl⟩ := map_eq_some_iff.mp found
  rw [HarqUe.getHarqVector_setHarqVector]
  split
  · exact (counted _ _ known direction).resetExpired numHarqProcess
  · exact counted _ _ known other

theorem HarqUeMap.process_resetExpiredHARQ (ueMap : HarqUeMap) (direction : Direction)
    (numHarqProcess : Nat) (key : HarqKey) :
    (ueMap.resetExpiredHARQ direction numHarqProcess).process direction key =
      (ueMap.process direction key).map (HarqProcess.expire numHarqProcess) := by
  unfold HarqUeMap.process HarqUeMap.resetExpiredHARQ
  cases ueMap key.1 with
  | none => rfl
  | some ue =>
    simp only [map_some, bind_some, HarqUe.getHarqVector_setHarqVector]
    exact NrMacHarqVector.get_resetExpired _ _ _

/-! ## Late and duplicated feedbacks -/

/-- Every feedback is about a process of a UE. -/
def HarqUeMap.Known {Info : Type} [HarqFeedback Info] (ueMap : HarqUeMap) (direction : Direction)
    (feedbacks : List Info) : Prop :=
  ∀ info ∈ feedbacks, (ueMap.process direction (feedbackKey info)).isSome = true

/-- The uplink drops the feedbacks of processes that are not active. -/
def dropInactive (ueMap : HarqUeMap) : List UlHarqInfo → Option (List UlHarqInfo)
  | [] => some []
  | it :: rest => do
    let process ← ueMap.process .ul (feedbackKey it)
    let others ← dropInactive ueMap rest
    return if process.active = false then others else it :: others

/-- The downlink drops the duplicates as well. -/
def dropDuplicates (ueMap : HarqUeMap) :
    (feedbacksDup : List HarqKey) → List DlHarqInfo → Option (List DlHarqInfo)
  | _, [] => some []
  | feedbacksDup, it :: rest => do
    let process ← ueMap.process .dl (feedbackKey it)
    if process.active = false ∨ feedbackKey it ∈ feedbacksDup then
      dropDuplicates ueMap feedbacksDup rest
    else
      let others ← dropDuplicates ueMap (feedbackKey it :: feedbacksDup) rest
      return it :: others

theorem active_iff {ueMap : HarqUeMap} {direction : Direction} {key : HarqKey}
    {process : HarqProcess} (found : ueMap.process direction key = some process) :
    ueMap.Active direction key ↔ process.active = true := by simp [HarqUeMap.Active, found]

theorem dropInactive_eq {ueMap : HarqUeMap} {feedbacks : List UlHarqInfo}
    (known : ueMap.Known .ul feedbacks) : dropInactive ueMap feedbacks =
      some (feedbacks.filter fun info => ueMap.Active .ul (feedbackKey info)) := by
  induction feedbacks with
  | nil => rfl
  | cons it rest ih =>
    obtain ⟨first, others⟩ := forall_mem_cons.mp known
    obtain ⟨process, found⟩ := isSome_iff_exists.mp first
    have active := active_iff found
    simp only [dropInactive, found, ih others, bind_eq_bind, bind_some, filter_cons, active]
    cases process.active <;> rfl

theorem dropInactive_known {ueMap : HarqUeMap} {feedbacks kept : List UlHarqInfo}
    (done : dropInactive ueMap feedbacks = some kept) : ueMap.Known .ul feedbacks := by
  induction feedbacks generalizing kept with
  | nil => exact nofun
  | cons it rest ih =>
    simp only [dropInactive, bind_eq_bind, bind_eq_some_iff] at done
    obtain ⟨process, found, others, done, -⟩ := done
    exact forall_mem_cons.mpr ⟨by rw [found]; rfl, ih done⟩

theorem dropDuplicates_some {ueMap : HarqUeMap} {feedbacks : List DlHarqInfo}
    (known : ueMap.Known .dl feedbacks) (feedbacksDup : List HarqKey) :
    ∃ kept, dropDuplicates ueMap feedbacksDup feedbacks = some kept ∧
      (∀ info ∈ kept, ueMap.Active .dl (feedbackKey info) ∧
        feedbackKey info ∉ feedbacksDup) ∧ (kept.map feedbackKey).Nodup := by
  induction feedbacks generalizing feedbacksDup with
  | nil => exact ⟨[], rfl, nofun, .nil⟩
  | cons it rest ih =>
    obtain ⟨first, others⟩ := forall_mem_cons.mp known
    obtain ⟨process, found⟩ := isSome_iff_exists.mp first
    simp only [dropDuplicates, found, bind_eq_bind, bind_some]
    split
    · exact ih others feedbacksDup
    · rename_i fresh
      rw [not_or, Bool.not_eq_false] at fresh
      obtain ⟨kept, done, apart, nodup⟩ := ih others (feedbackKey it :: feedbacksDup)
      refine ⟨it :: kept, by rw [done]; rfl, ?_, ?_⟩
      · rw [forall_mem_cons]
        refine ⟨⟨(active_iff found).mpr fresh.1, fresh.2⟩, fun info mem => ?_⟩
        exact ⟨(apart info mem).1, fun dup => (apart info mem).2 (mem_cons_of_mem _ dup)⟩
      · rw [map_cons, nodup_cons]
        refine ⟨fun again => ?_, nodup⟩
        obtain ⟨info, mem, same⟩ := List.mem_map.mp again
        exact (apart info mem).2 (same ▸ mem_cons_self)

theorem dropDuplicates_known {ueMap : HarqUeMap} {feedbacksDup : List HarqKey}
    {feedbacks kept : List DlHarqInfo}
    (done : dropDuplicates ueMap feedbacksDup feedbacks = some kept) :
    ueMap.Known .dl feedbacks := by
  induction feedbacks generalizing feedbacksDup kept with
  | nil => exact nofun
  | cons it rest ih =>
    simp only [dropDuplicates, bind_eq_bind, bind_eq_some_iff] at done
    obtain ⟨process, found, done⟩ := done
    refine forall_mem_cons.mpr ⟨by rw [found]; rfl, ?_⟩
    split at done
    · exact ih done
    · obtain ⟨others, done, -⟩ := bind_eq_some_iff.mp done
      exact ih done

/-! ## The triggers -/

/-- The processes of the UEs and the feedbacks that wait for symbols. -/
structure HarqState where
  ueMap : HarqUeMap
  dlHarqToRetransmit : List DlHarqInfo
  ulHarqToRetransmit : List UlHarqInfo

section
variable (maxHarqReTx : Nat → Nat) (numHarqProcess : Nat)

/-- With the feedbacks for `ScheduleDl` and the processes that were erased. -/
def doSchedDlTriggerReq (s : HarqState) (dlHarqInfoList : List DlHarqInfo) :
    Option (HarqState × List DlHarqInfo × List HarqKey) :=
  let ueMap := s.ueMap.resetExpiredHARQ .dl numHarqProcess
  if 0 < dlHarqInfoList.length ∨ 0 < s.dlHarqToRetransmit.length then do
    let dlHarqFeedback ← dropDuplicates ueMap [] (s.dlHarqToRetransmit ++ dlHarqInfoList)
    let (ueMap, dlHarqFeedback, erased) ←
      processHARQFeedbacks maxHarqReTx .dl ueMap dlHarqFeedback
    return ({ s with ueMap, dlHarqToRetransmit := [] }, dlHarqFeedback, erased)
  else some ({ s with ueMap }, [], [])

/-- With the feedbacks for `ScheduleUl` and the processes that were erased. -/
def doSchedUlTriggerReq (s : HarqState) (ulHarqInfoList : List UlHarqInfo) :
    Option (HarqState × List UlHarqInfo × List HarqKey) :=
  let ueMap := s.ueMap.resetExpiredHARQ .ul numHarqProcess
  if 0 < ulHarqInfoList.length ∨ 0 < s.ulHarqToRetransmit.length then do
    let ulHarqFeedback ← dropInactive ueMap (s.ulHarqToRetransmit ++ ulHarqInfoList)
    let (ueMap, ulHarqFeedback, erased) ←
      processHARQFeedbacks maxHarqReTx .ul ueMap ulHarqFeedback
    return ({ s with ueMap, ulHarqToRetransmit := [] }, ulHarqFeedback, erased)
  else some ({ s with ueMap }, [], [])

end

/-- The trigger comes to the scheduling, no process was erased twice (by the reset or by a
feedback), and the counters are right. -/
def Accepts {Info : Type} (direction : Direction) (reset : HarqUeMap)
    (trigger : Option (HarqState × List Info × List HarqKey)) : Prop :=
  ∃ s' feedbacks erased, trigger = some (s', feedbacks, erased) ∧ s'.ueMap.Counted ∧
    erased.Nodup ∧ ∀ key ∈ erased, reset.Active direction key

section
variable {maxHarqReTx : Nat → Nat} {numHarqProcess : Nat} {s : HarqState}

theorem known_resetExpiredHARQ {Info : Type} [HarqFeedback Info] (ueMap : HarqUeMap)
    (direction : Direction) (numHarqProcess : Nat) (feedbacks : List Info) :
    (ueMap.resetExpiredHARQ direction numHarqProcess).Known direction feedbacks ↔
      ueMap.Known direction feedbacks := by
  simp [HarqUeMap.Known, HarqUeMap.process_resetExpiredHARQ]

/-- The trigger is accepted as soon as the processing goes through. -/
theorem accepts_processed {Info : Type} [HarqFeedback Info] {direction : Direction}
    {reset : HarqUeMap} (counted : reset.Counted) (kept : List Info)
    (next : HarqUeMap → HarqState) (same : ∀ ueMap, (next ueMap).ueMap = ueMap) :
    Accepts direction reset ((processHARQFeedbacks maxHarqReTx direction reset kept).map fun r =>
        (next r.1, r.2.1, r.2.2)) ↔
      (processHARQFeedbacks maxHarqReTx direction reset kept).isSome = true := by
  constructor
  · rintro ⟨s', feedbacks, erased, done, -⟩
    rw [← isSome_map (f := fun r => (next r.1, r.2.1, r.2.2)), done]
    rfl
  · intro done
    obtain ⟨⟨ueMap', feedbacks, erased⟩, here⟩ := isSome_iff_exists.mp done
    obtain ⟨right, once, were⟩ := processHARQFeedbacks_erased counted here
    refine ⟨next ueMap', feedbacks, erased, by rw [here]; rfl, ?_, once, were⟩
    rw [same]
    exact right

theorem accepts_unchanged {Info : Type} {direction : Direction} {reset : HarqUeMap}
    (counted : reset.Counted) {s' : HarqState} (same : s'.ueMap = reset) :
    Accepts direction reset (some (s', ([] : List Info), [])) :=
  ⟨s', [], [], rfl, same ▸ counted, .nil, nofun⟩

theorem accepts_none {Info : Type} {direction : Direction} {reset : HarqUeMap} :
    ¬ Accepts direction reset (none : Option (HarqState × List Info × List HarqKey)) :=
  fun ⟨_, _, _, done, _⟩ => nomatch done

theorem dlTrigger_iff (counted : s.ueMap.Counted) (dlHarqInfoList : List DlHarqInfo) :
    Accepts .dl (s.ueMap.resetExpiredHARQ .dl numHarqProcess)
      (doSchedDlTriggerReq maxHarqReTx numHarqProcess s dlHarqInfoList) ↔
    s.ueMap.Known .dl (s.dlHarqToRetransmit ++ dlHarqInfoList) := by
  have counted' := counted.resetExpiredHARQ .dl numHarqProcess
  rw [← known_resetExpiredHARQ s.ueMap .dl numHarqProcess]
  unfold doSchedDlTriggerReq
  dsimp only
  split
  · cases done : dropDuplicates (s.ueMap.resetExpiredHARQ .dl numHarqProcess) []
        (s.dlHarqToRetransmit ++ dlHarqInfoList) with
    | none =>
      refine ⟨fun accepts => (accepts_none accepts).elim, fun known => ?_⟩
      obtain ⟨_, done', -⟩ := dropDuplicates_some known []
      rw [done] at done'
      cases done'
    | some kept =>
      have known := dropDuplicates_known done
      obtain ⟨_, done', active, nodup⟩ := dropDuplicates_some known []
      cases done.symm.trans done'
      refine ⟨fun _ => known, fun _ => ?_⟩
      have run := (@processHARQFeedbacks_isSome maxHarqReTx _ _ _ _ counted' kept).mpr
        ⟨fun info mem => (active info mem).1,
          (pairwise_map.mp nodup).imp fun apart same => absurd same apart⟩
      have accepts := (accepts_processed counted' kept
        (fun ueMap => { s with ueMap, dlHarqToRetransmit := [] }) fun _ => rfl).mpr run
      rw [map_eq_bind] at accepts
      exact accepts
  · rename_i none_
    rw [not_or, Nat.pos_iff_ne_zero, Nat.pos_iff_ne_zero, not_not, not_not,
      length_eq_zero_iff, length_eq_zero_iff] at none_
    rw [none_.1, none_.2]
    exact ⟨fun _ => nofun, fun _ => accepts_unchanged counted' rfl⟩

/-- Every feedback is about a process, and of those for an active one none that erases it is
followed by another for the same process. -/
def Acceptable (maxHarqReTx : Nat → Nat) (numHarqProcess : Nat) (s : HarqState)
    (ulHarqInfoList : List UlHarqInfo) : Prop :=
  let reset := s.ueMap.resetExpiredHARQ .ul numHarqProcess
  let merged := s.ulHarqToRetransmit ++ ulHarqInfoList
  s.ueMap.Known .ul merged ∧
    (merged.filter fun info => reset.Active .ul (feedbackKey info)).Pairwise fun info later =>
      feedbackKey info = feedbackKey later → erases maxHarqReTx reset .ul info = false

theorem ulTrigger_iff (counted : s.ueMap.Counted) (ulHarqInfoList : List UlHarqInfo) :
    Accepts .ul (s.ueMap.resetExpiredHARQ .ul numHarqProcess)
      (doSchedUlTriggerReq maxHarqReTx numHarqProcess s ulHarqInfoList) ↔
    Acceptable maxHarqReTx numHarqProcess s ulHarqInfoList := by
  have counted' := counted.resetExpiredHARQ .ul numHarqProcess
  unfold Acceptable
  dsimp only
  rw [← known_resetExpiredHARQ s.ueMap .ul numHarqProcess]
  unfold doSchedUlTriggerReq
  dsimp only
  split
  · cases done : dropInactive (s.ueMap.resetExpiredHARQ .ul numHarqProcess)
        (s.ulHarqToRetransmit ++ ulHarqInfoList) with
    | none =>
      refine ⟨fun accepts => (accepts_none accepts).elim, fun acceptable => ?_⟩
      rw [dropInactive_eq acceptable.1] at done
      cases done
    | some kept =>
      have known := dropInactive_known done
      cases done.symm.trans (dropInactive_eq known)
      have run := @processHARQFeedbacks_isSome maxHarqReTx UlHarqInfo _ _ .ul counted'
        ((s.ulHarqToRetransmit ++ ulHarqInfoList).filter fun info =>
          (s.ueMap.resetExpiredHARQ .ul numHarqProcess).Active .ul (feedbackKey info))
      have accepts := @accepts_processed maxHarqReTx UlHarqInfo _ .ul _ counted'
        ((s.ulHarqToRetransmit ++ ulHarqInfoList).filter fun info =>
          (s.ueMap.resetExpiredHARQ .ul numHarqProcess).Active .ul (feedbackKey info))
        (fun ueMap => { s with ueMap, ulHarqToRetransmit := [] }) fun _ => rfl
      have active : ∀ info ∈ (s.ulHarqToRetransmit ++ ulHarqInfoList).filter fun info =>
          (s.ueMap.resetExpiredHARQ .ul numHarqProcess).Active .ul (feedbackKey info),
          (s.ueMap.resetExpiredHARQ .ul numHarqProcess).Active .ul (feedbackKey info) :=
        fun info mem => of_decide_eq_true (mem_filter.mp mem).2
      rw [run, map_eq_bind] at accepts
      exact accepts.trans ⟨fun apart => ⟨known, apart.2⟩, fun apart => ⟨active, apart.2⟩⟩
  · rename_i none_
    rw [not_or, Nat.pos_iff_ne_zero, Nat.pos_iff_ne_zero, not_not, not_not,
      length_eq_zero_iff, length_eq_zero_iff] at none_
    rw [none_.1, none_.2]
    exact ⟨fun _ => ⟨nofun, .nil⟩, fun _ => accepts_unchanged counted' rfl⟩

end

end Ns3.Nr
