import Ns3.Nr.HarqVector
import Ns3.Nr.SchedulerLcg

/-!
# HARQ feedbacks of the NR scheduler

`DoSchedDlTriggerReq` and `DoSchedUlTriggerReq` up to the call of the scheduling, with the
processes of the UEs. What the scheduling does to the processes are steps of their own. `none`
is `NS_FATAL_ERROR`, a failed `NS_ABORT_IF` or an end iterator.
-/

namespace Ns3.Nr

open Option NrMacHarqVector

/-- A feedback of either direction. -/
class HarqFeedback (Info : Type) where
  harqInfo : Info → HarqInfo
  isReceivedOk : Info → Bool
  getNackStreamIndexes : Info → List Nat

open HarqFeedback

/-- The loop of `DlHarqInfo::IsReceivedOk`, which stops at a NACK. -/
def streamsReceived : (ok : Bool) → List DlHarqStatus → Bool
  | ok, [] => ok
  | _, .nack :: _ => false
  | _, _ :: rest => streamsReceived true rest

instance : HarqFeedback DlHarqInfo where
  harqInfo := DlHarqInfo.toHarqInfo
  isReceivedOk info := streamsReceived false info.harqStatus
  getNackStreamIndexes info :=
    (List.range info.harqStatus.length).filter fun i => info.harqStatus[i]? = some .nack

instance : HarqFeedback UlHarqInfo where
  harqInfo := UlHarqInfo.toHarqInfo
  isReceivedOk := UlHarqInfo.isReceivedOk
  getNackStreamIndexes info := if info.receptionStatus = .notOk then [0] else []

/-- The UE and the process of a feedback. -/
def feedbackKey {Info : Type} [HarqFeedback Info] (info : Info) : HarqKey := (harqInfo info).key

/-- The processes of a UE. -/
structure HarqUe where
  dlHarq : NrMacHarqVector
  ulHarq : NrMacHarqVector

namespace HarqUe

def getHarqVector (ue : HarqUe) : Direction → NrMacHarqVector
  | .dl => ue.dlHarq
  | .ul => ue.ulHarq

def setHarqVector (ue : HarqUe) (direction : Direction) (v : NrMacHarqVector) : HarqUe :=
  match direction with
  | .dl => { ue with dlHarq := v }
  | .ul => { ue with ulHarq := v }

@[simp]
theorem getHarqVector_setHarqVector (ue : HarqUe) (direction other : Direction)
    (v : NrMacHarqVector) : (ue.setHarqVector direction v).getHarqVector other =
      if other = direction then v else ue.getHarqVector other := by
  cases direction <;> cases other <;> rfl

end HarqUe

abbrev HarqUeMap := Nat → Option HarqUe

namespace HarqUeMap

variable (ueMap : HarqUeMap) (direction : Direction)

/-- The process that a key names. -/
def process (key : HarqKey) : Option HarqProcess :=
  (ueMap key.1).bind fun ue => (ue.getHarqVector direction).get key.2

/-- The vector of the UE becomes another. -/
def setVector (rnti : Nat) (v : NrMacHarqVector) : HarqUeMap := fun other =>
  (ueMap other).map fun ue => if other = rnti then ue.setHarqVector direction v else ue

/-- The process exists and is active. -/
def Active (key : HarqKey) : Prop :=
  ∃ process, ueMap.process direction key = some process ∧ process.active = true

instance (key : HarqKey) : Decidable (ueMap.Active direction key) :=
  match found : ueMap.process direction key with
  | none => isFalse fun ⟨_, same, _⟩ => by simp [found] at same
  | some process =>
    if active : process.active = true then isTrue ⟨process, found, active⟩
    else isFalse fun ⟨other, same, active'⟩ => by
      rw [found] at same
      cases same
      exact active active'

/-- Every counter is the number of active processes of its vector. -/
def Counted : Prop :=
  ∀ rnti ue, ueMap rnti = some ue → ∀ direction, (ue.getHarqVector direction).Counted

end HarqUeMap

/-! ## Processing -/

section
variable (maxHarqReTx : Nat → Nat)

/-- The feedback erases its process: it is an ACK or the last version was sent. -/
def erases {Info : Type} [HarqFeedback Info] (ueMap : HarqUeMap) (direction : Direction)
    (info : Info) : Bool :=
  isReceivedOk info || (((ueMap.process direction (feedbackKey info)).bind
    HarqProcess.dciElement).bind fun dci => dci.rv.max?) = some (maxHarqReTx (harqInfo info).rnti)

/-- With the NACKs that stay, and the processes that were erased. -/
def processHARQFeedbacks {Info : Type} [HarqFeedback Info] (direction : Direction) :
    HarqUeMap → List Info → Option (HarqUeMap × List Info × List HarqKey)
  | ueMap, [] => some (ueMap, [], [])
  | ueMap, feedback :: rest => do
    let harqId := (harqInfo feedback).harqProcessId
    let rnti := (harqInfo feedback).rnti
    let ue ← ueMap rnti
    let ueProcess ← (ue.getHarqVector direction).get harqId
    if ueProcess.active = false then none
    else
      let dci ← ueProcess.dciElement
      let rv ← dci.rv.max?
      if isReceivedOk feedback ∨ rv = maxHarqReTx rnti then
        let v ← (ue.getHarqVector direction).erase harqId
        let (ueMap, nacks, erased) ←
          processHARQFeedbacks direction (ueMap.setVector direction rnti v) rest
        return (ueMap, nacks, feedbackKey feedback :: erased)
      else
        let v := (ue.getHarqVector direction).set harqId
          { ueProcess with
            status := .receivedFeedback
            nackStreamIndexes := getNackStreamIndexes feedback }
        let (ueMap, nacks, erased) ←
          processHARQFeedbacks direction (ueMap.setVector direction rnti v) rest
        return (ueMap, feedback :: nacks, erased)

end

/-! ## One process -/

namespace HarqUeMap

variable {ueMap ueMap' : HarqUeMap} {direction : Direction} {key : HarqKey}
  {process new : HarqProcess}

/-- One process becomes another. -/
def Changes (ueMap ueMap' : HarqUeMap) (direction : Direction) (key : HarqKey)
    (new : HarqProcess) : Prop :=
  ∀ other, ueMap'.process direction other =
    (ueMap.process direction other).map fun old => if other = key then new else old

theorem changes_setVector {rnti id : Nat} {ue : HarqUe} {v : NrMacHarqVector}
    (known : ueMap rnti = some ue) (update : ∀ other, v.get other =
      ((ue.getHarqVector direction).get other).map fun old => if other = id then new else old) :
    ueMap.Changes (ueMap.setVector direction rnti v) direction (rnti, id) new := by
  intro other
  obtain ⟨rnti', id'⟩ := other
  unfold process setVector
  cases found : ueMap rnti' with
  | none => rfl
  | some ue' =>
    simp only [map_some, bind_some]
    by_cases same : rnti' = rnti
    · subst same
      obtain rfl : ue = ue' := by
        rw [known] at found
        exact Option.some.inj found
      simp [update]
    · simp [same]

theorem counted_setVector (counted : ueMap.Counted) {rnti : Nat} {v : NrMacHarqVector}
    (right : v.Counted) : (ueMap.setVector direction rnti v).Counted := by
  intro other ue found direction'
  obtain ⟨old, known, rfl⟩ := map_eq_some_iff.mp found
  split
  · rw [HarqUe.getHarqVector_setHarqVector]
    split
    · exact right
    · exact counted _ _ known _
  · exact counted _ _ known _

theorem process_eq {ue : HarqUe} (known : ueMap key.1 = some ue) :
    ueMap.process direction key = (ue.getHarqVector direction).get key.2 := by
  rw [process, known]
  rfl

theorem process_some (found : ueMap.process direction key = some process) :
    ∃ ue, ueMap key.1 = some ue ∧ (ue.getHarqVector direction).get key.2 = some process :=
  bind_eq_some_iff.mp found

theorem Counted.settled (counted : ueMap.Counted)
    (found : ueMap.process direction key = some process) : Settled process := by
  obtain ⟨ue, known, found⟩ := process_some found
  exact (counted _ _ known direction).settled _ (mem_of_get found)

theorem Changes.active (changes : ueMap.Changes ueMap' direction key new)
    (idle : new.active = false) (other : HarqKey) :
    ueMap'.Active direction other ↔ ueMap.Active direction other ∧ other ≠ key := by
  unfold Active
  rw [changes other]
  by_cases same : other = key
  · simp [same, idle]
  · simp [same]

theorem Changes.active_iff (changes : ueMap.Changes ueMap' direction key new)
    (found : ueMap.process direction key = some process) (same : new.active = process.active)
    (other : HarqKey) : ueMap'.Active direction other ↔ ueMap.Active direction other := by
  unfold Active
  rw [changes other]
  by_cases here : other = key
  · subst here
    simp [found, same]
  · simp [here]

end HarqUeMap

/-! ## The steps of the processing -/

section
variable {maxHarqReTx : Nat → Nat} {Info : Type} [HarqFeedback Info]
  {ueMap ueMap' : HarqUeMap} {direction : Direction} {feedback : Info} {rest : List Info}

theorem active_version (maxHarqReTx : Nat → Nat) (counted : ueMap.Counted)
    (active : ueMap.Active direction (feedbackKey feedback)) :
    ∃ ue process dci rv, ueMap (harqInfo feedback).rnti = some ue ∧
      (ue.getHarqVector direction).get (harqInfo feedback).harqProcessId = some process ∧
      process.active = true ∧ process.dciElement = some dci ∧ dci.rv.max? = some rv ∧
      erases maxHarqReTx ueMap direction feedback =
        decide (isReceivedOk feedback = true ∨ rv = maxHarqReTx (harqInfo feedback).rnti) := by
  obtain ⟨process, found, busy⟩ := active
  obtain ⟨dci, element, versions⟩ := (counted.settled found).dci busy
  obtain ⟨ue, known, found'⟩ := HarqUeMap.process_some found
  cases most : dci.rv.max? with
  | none => exact absurd (List.max?_eq_none_iff.mp most) versions
  | some rv =>
    refine ⟨ue, process, dci, rv, known, found', busy, element, most, ?_⟩
    simp [erases, found, element, most]

theorem processHARQFeedbacks_erases (counted : ueMap.Counted)
    (active : ueMap.Active direction (feedbackKey feedback))
    (erased : erases maxHarqReTx ueMap direction feedback = true) (rest : List Info) :
    ∃ ueMap' : HarqUeMap, ueMap'.Counted ∧ (∀ other, ueMap'.Active direction other ↔
        ueMap.Active direction other ∧ other ≠ feedbackKey feedback) ∧
      (∀ info : Info, feedbackKey info ≠ feedbackKey feedback →
        erases maxHarqReTx ueMap' direction info = erases maxHarqReTx ueMap direction info) ∧
      processHARQFeedbacks maxHarqReTx direction ueMap (feedback :: rest) =
        (processHARQFeedbacks maxHarqReTx direction ueMap' rest).map fun r =>
          (r.1, r.2.1, feedbackKey feedback :: r.2.2) := by
  obtain ⟨ue, process, dci, rv, known, found, busy, element, most, whether⟩ :=
    active_version maxHarqReTx counted active
  obtain ⟨v, done, right, update⟩ := (counted _ _ known direction).erase found busy
  have changes : ueMap.Changes _ direction (feedbackKey feedback) _ :=
    HarqUeMap.changes_setVector known update
  refine ⟨_, HarqUeMap.counted_setVector counted right, changes.active rfl, ?_, ?_⟩
  · intro info other
    simp [erases, changes (feedbackKey info), other]
  · have last := of_decide_eq_true (whether.symm.trans erased)
    rw [processHARQFeedbacks]
    simp only [known, found, busy, element, most, done, bind_eq_bind, bind_some,
      if_pos last, Bool.true_eq_false, if_false]
    exact map_eq_bind.symm

theorem processHARQFeedbacks_keeps (counted : ueMap.Counted)
    (active : ueMap.Active direction (feedbackKey feedback))
    (kept : erases maxHarqReTx ueMap direction feedback = false) (rest : List Info) :
    ∃ ueMap' : HarqUeMap, ueMap'.Counted ∧
      (∀ other, ueMap'.Active direction other ↔ ueMap.Active direction other) ∧
      (∀ info : Info,
        erases maxHarqReTx ueMap' direction info = erases maxHarqReTx ueMap direction info) ∧
      processHARQFeedbacks maxHarqReTx direction ueMap (feedback :: rest) =
        (processHARQFeedbacks maxHarqReTx direction ueMap' rest).map fun r =>
          (r.1, feedback :: r.2.1, r.2.2) := by
  obtain ⟨ue, process, dci, rv, known, found, busy, element, most, whether⟩ :=
    active_version maxHarqReTx counted active
  obtain ⟨_, status, timer, _, rlcPduInfo, nackStreamIndexes⟩ := process
  subst busy element
  let process : HarqProcess := ⟨true, status, timer, some dci, rlcPduInfo, nackStreamIndexes⟩
  let new : HarqProcess := { process with
    status := .receivedFeedback
    nackStreamIndexes := getNackStreamIndexes feedback }
  have vector := counted _ _ known direction
  have settled : Settled process := vector.settled _ (mem_of_get found)
  have settled' : Settled new := ⟨by simp [new, process], settled.dci, settled.reset⟩
  have right : ((ue.getHarqVector direction).set (harqInfo feedback).harqProcessId new).Counted :=
    vector.set found settled' rfl
  have changes : ueMap.Changes _ direction (feedbackKey feedback) new :=
    HarqUeMap.changes_setVector known
      (get_set (ue.getHarqVector direction) (harqInfo feedback).harqProcessId new)
  have here : ueMap.process direction (feedbackKey feedback) = some process := by
    rw [@HarqUeMap.process_eq _ _ (feedbackKey feedback) _ known]
    exact found
  refine ⟨_, HarqUeMap.counted_setVector counted right, changes.active_iff here rfl, ?_, ?_⟩
  · intro info
    by_cases same : feedbackKey info = feedbackKey feedback
    · have now := changes (feedbackKey feedback)
      rw [here, map_some, if_pos rfl] at now
      simp only [erases, same, now, here]
      rfl
    · simp [erases, changes (feedbackKey info), same]
  · have last := of_decide_eq_false (whether.symm.trans kept)
    rw [processHARQFeedbacks]
    simp only [known, found, most, bind_eq_bind, bind_some, if_neg last]
    exact map_eq_bind.symm

theorem processHARQFeedbacks_inactive (inactive : ¬ ueMap.Active direction (feedbackKey feedback))
    (rest : List Info) :
    processHARQFeedbacks maxHarqReTx direction ueMap (feedback :: rest) = none := by
  rw [processHARQFeedbacks]
  cases known : ueMap (harqInfo feedback).rnti with
  | none => rfl
  | some ue =>
    have here := @HarqUeMap.process_eq ueMap direction (feedbackKey feedback) ue known
    cases found : (ue.getHarqVector direction).get (harqInfo feedback).harqProcessId with
    | none => simp only [bind_eq_bind, bind_some, found, bind_none]
    | some process =>
      have idle : process.active = false := by
        rw [← Bool.not_eq_true]
        exact fun busy => inactive ⟨process, here.trans found, busy⟩
      simp [found, idle]

/-- **The processing.** It goes through exactly when the processes are active and no feedback
that erases a process is followed by another for the same one. -/
theorem processHARQFeedbacks_isSome (counted : ueMap.Counted) (feedbacks : List Info) :
    (processHARQFeedbacks maxHarqReTx direction ueMap feedbacks).isSome = true ↔
      (∀ info ∈ feedbacks, ueMap.Active direction (feedbackKey info)) ∧
      feedbacks.Pairwise fun info later => feedbackKey info = feedbackKey later →
        erases maxHarqReTx ueMap direction info = false := by
  induction feedbacks generalizing ueMap with
  | nil => simp [processHARQFeedbacks]
  | cons feedback rest ih =>
    rw [List.forall_mem_cons, List.pairwise_cons]
    by_cases active : ueMap.Active direction (feedbackKey feedback)
    · cases whether : erases maxHarqReTx ueMap direction feedback with
      | true =>
        obtain ⟨ueMap', counted', active', erases', run⟩ :=
          processHARQFeedbacks_erases counted active whether rest
        rw [run, isSome_map, ih counted']
        simp only [active', Bool.true_eq_false]
        constructor
        · rintro ⟨all, apart⟩
          refine ⟨⟨active, fun info mem => (all info mem).1⟩,
            fun info mem same => (all info mem).2 same.symm, ?_⟩
          refine apart.imp_of_mem fun mem _ free same => ?_
          rw [← erases' _ (all _ mem).2]
          exact free same
        · rintro ⟨⟨-, all⟩, first, apart⟩
          refine ⟨fun info mem => ⟨all info mem, fun same => first info mem same.symm⟩, ?_⟩
          refine apart.imp_of_mem fun mem _ free same => ?_
          rw [erases' _ fun here => first _ mem here.symm]
          exact free same
      | false =>
        obtain ⟨ueMap', counted', active', erases', run⟩ :=
          processHARQFeedbacks_keeps counted active whether rest
        rw [run, isSome_map, ih counted']
        simp [active', erases', active]
    · rw [processHARQFeedbacks_inactive active]
      simp [active]

theorem processHARQFeedbacks_erased (counted : ueMap.Counted) {feedbacks nacks : List Info}
    {erased : List HarqKey} (done : processHARQFeedbacks maxHarqReTx direction ueMap feedbacks =
      some (ueMap', nacks, erased)) :
    ueMap'.Counted ∧ erased.Nodup ∧ ∀ key ∈ erased, ueMap.Active direction key := by
  induction feedbacks generalizing ueMap nacks erased with
  | nil =>
    cases done
    exact ⟨counted, .nil, nofun⟩
  | cons feedback rest ih =>
    by_cases active : ueMap.Active direction (feedbackKey feedback)
    · cases whether : erases maxHarqReTx ueMap direction feedback with
      | true =>
        obtain ⟨next, counted', active', -, run⟩ :=
          processHARQFeedbacks_erases counted active whether rest
        rw [run, map_eq_some_iff] at done
        obtain ⟨⟨last, nacks', erased'⟩, done, same⟩ := done
        cases same
        obtain ⟨right, once, were⟩ := ih counted' done
        refine ⟨right, List.nodup_cons.mpr ⟨?_, once⟩, ?_⟩
        · intro again
          exact ((active' _).mp (were _ again)).2 rfl
        · rw [List.forall_mem_cons]
          exact ⟨active, fun key mem => ((active' key).mp (were key mem)).1⟩
      | false =>
        obtain ⟨next, counted', active', -, run⟩ :=
          processHARQFeedbacks_keeps counted active whether rest
        rw [run, map_eq_some_iff] at done
        obtain ⟨⟨last, nacks', erased'⟩, done, same⟩ := done
        cases same
        obtain ⟨right, once, were⟩ := ih counted' done
        exact ⟨right, once, fun key mem => (active' key).mp (were key mem)⟩
    · rw [processHARQFeedbacks_inactive active] at done
      cases done

end

end Ns3.Nr
