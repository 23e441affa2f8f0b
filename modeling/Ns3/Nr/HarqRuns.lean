import Ns3.Nr.HarqTriggers

/-!
# Runs of the HARQ processes

The scheduler configures and releases UEs, gets feedbacks, and the scheduling between two
triggers inserts processes, sends them again and keeps feedbacks for later.
-/

namespace Ns3.Nr

open Option NrMacHarqVector

/-- What happens to the processes. -/
inductive HarqEvent where
  | cschedUeConfigReq (rnti : Nat) (ids : List Nat)
  | cschedUeReleaseReq (rnti : Nat)
  | schedDlTriggerReq (dlHarqInfoList : List DlHarqInfo)
  | schedUlTriggerReq (ulHarqInfoList : List UlHarqInfo)
  | newData (direction : Direction) (rnti : Nat) (harqProcess : HarqProcess)
  | retransmit (direction : Direction) (key : HarqKey) (dci : DciInfoElementTdma)
  | bufferDl (feedback : DlHarqInfo)
  | bufferUl (feedback : UlHarqInfo)

namespace HarqState

/-- No UE is configured. -/
def Start (s : HarqState) : Prop := s = ⟨fun _ => none, [], []⟩

/-- The identifiers of a vector are below the number of processes, a new process has a DCI, and
so has one that is sent again. -/
def Allowed (_ : HarqState) : HarqEvent → Prop
  | .cschedUeConfigReq _ ids => ids.Nodup ∧ ids.length ≤ 255
  | .newData _ _ harqProcess => Settled harqProcess
  | .retransmit _ _ dci => dci.rv ≠ []
  | _ => True

section
variable (maxHarqReTx : Nat → Nat) (numHarqProcess : Nat)

/-- The vector of a configured UE becomes another. -/
def withVector (s : HarqState) (direction : Direction) (rnti : Nat) (v : NrMacHarqVector) :
    HarqState :=
  { s with ueMap := s.ueMap.setVector direction rnti v }

def step (s : HarqState) : HarqEvent → Option HarqState
  | .cschedUeConfigReq rnti ids =>
    if (s.ueMap rnti).isSome then some s
    else
      let ue : HarqUe := ⟨.setMaxSize ids, .setMaxSize ids⟩
      some { s with ueMap := Function.update s.ueMap rnti (some ue) }
  | .cschedUeReleaseReq rnti =>
    if (s.ueMap rnti).isSome then some { s with ueMap := Function.update s.ueMap rnti none }
    else none
  | .schedDlTriggerReq dlHarqInfoList =>
    (doSchedDlTriggerReq maxHarqReTx numHarqProcess s dlHarqInfoList).map Prod.fst
  | .schedUlTriggerReq ulHarqInfoList =>
    (doSchedUlTriggerReq maxHarqReTx numHarqProcess s ulHarqInfoList).map Prod.fst
  | .newData direction rnti harqProcess => do
    let ue ← s.ueMap rnti
    if (ue.getHarqVector direction).canInsert then
      let (_, v) ← (ue.getHarqVector direction).insert harqProcess
      return s.withVector direction rnti v
    else none
  | .retransmit direction key dci => do
    let ue ← s.ueMap key.1
    let process ← (ue.getHarqVector direction).get key.2
    let _ ← process.dciElement
    let process := { process with
      status := .waitingFeedback
      timer := 0
      dciElement := some dci }
    return s.withVector direction key.1 ((ue.getHarqVector direction).set key.2 process)
  | .bufferDl feedback =>
    some { s with dlHarqToRetransmit := s.dlHarqToRetransmit ++ [feedback] }
  | .bufferUl feedback =>
    some { s with ulHarqToRetransmit := s.ulHarqToRetransmit ++ [feedback] }

end

variable {maxHarqReTx : Nat → Nat} {numHarqProcess : Nat} {s s' : HarqState}

theorem counted_update {ueMap : HarqUeMap} (counted : ueMap.Counted) (rnti : Nat)
    {ue : Option HarqUe} (right : ∀ ue' ∈ ue, ∀ direction, (ue'.getHarqVector direction).Counted) :
    HarqUeMap.Counted (Function.update ueMap rnti ue) := by
  intro other ue' found direction
  by_cases same : other = rnti
  · subst same
    rw [Function.update_self] at found
    exact right ue' found direction
  · rw [Function.update_of_ne same] at found
    exact counted other ue' found direction

theorem counted_dlTrigger (counted : s.ueMap.Counted) {dlHarqInfoList nacks : List DlHarqInfo}
    {erased : List HarqKey}
    (done : doSchedDlTriggerReq maxHarqReTx numHarqProcess s dlHarqInfoList =
      some (s', nacks, erased)) : s'.ueMap.Counted := by
  have counted' := counted.resetExpiredHARQ .dl numHarqProcess
  unfold doSchedDlTriggerReq at done
  split at done
  · simp only [bind_eq_bind, bind_eq_some_iff] at done
    obtain ⟨kept, -, ⟨ueMap', nacks', erased'⟩, here, same⟩ := done
    cases same
    exact (processHARQFeedbacks_erased counted' here).1
  · cases done
    exact counted'

theorem counted_ulTrigger (counted : s.ueMap.Counted) {ulHarqInfoList nacks : List UlHarqInfo}
    {erased : List HarqKey}
    (done : doSchedUlTriggerReq maxHarqReTx numHarqProcess s ulHarqInfoList =
      some (s', nacks, erased)) : s'.ueMap.Counted := by
  have counted' := counted.resetExpiredHARQ .ul numHarqProcess
  unfold doSchedUlTriggerReq at done
  split at done
  · simp only [bind_eq_bind, bind_eq_some_iff] at done
    obtain ⟨kept, -, ⟨ueMap', nacks', erased'⟩, here, same⟩ := done
    cases same
    exact (processHARQFeedbacks_erased counted' here).1
  · cases done
    exact counted'

theorem step_counted (counted : s.ueMap.Counted) {e : HarqEvent} (allowed : s.Allowed e)
    (done : s.step maxHarqReTx numHarqProcess e = some s') : s'.ueMap.Counted := by
  cases e with
  | cschedUeConfigReq rnti ids =>
    simp only [step] at done
    split at done
    · cases done
      exact counted
    · cases done
      apply counted_update counted
      rintro _ ⟨⟩ direction
      cases direction <;> exact counted_setMaxSize allowed.1 allowed.2
  | cschedUeReleaseReq rnti =>
    simp only [step] at done
    split at done
    · cases done
      exact counted_update counted rnti nofun
    · cases done
  | schedDlTriggerReq dlHarqInfoList =>
    obtain ⟨⟨_, nacks, erased⟩, here, rfl⟩ := map_eq_some_iff.mp done
    exact counted_dlTrigger counted here
  | schedUlTriggerReq ulHarqInfoList =>
    obtain ⟨⟨_, nacks, erased⟩, here, rfl⟩ := map_eq_some_iff.mp done
    exact counted_ulTrigger counted here
  | newData direction rnti harqProcess =>
    simp only [step, bind_eq_bind, bind_eq_some_iff] at done
    obtain ⟨ue, known, done⟩ := done
    split at done
    · obtain ⟨⟨id, v⟩, inserted, same⟩ := bind_eq_some_iff.mp done
      cases same
      exact HarqUeMap.counted_setVector counted ((counted _ _ known direction).insert allowed inserted)
    · cases done
  | retransmit direction key dci =>
    simp only [step, bind_eq_bind, bind_eq_some_iff] at done
    obtain ⟨ue, known, process, found, old, element, same⟩ := done
    cases same
    have vector := counted _ _ known direction
    have settled : Settled process := vector.settled _ (mem_of_get found)
    have busy : process.active = true := by
      cases idle : process.active with
      | true => rfl
      | false =>
        rw [settled.reset idle] at element
        cases element
    apply HarqUeMap.counted_setVector counted
    refine vector.set found ⟨by simp [busy], fun _ => ⟨dci, rfl, allowed⟩, ?_⟩ rfl
    intro idle
    rw [busy] at idle
    cases idle
  | bufferDl feedback =>
    cases done
    exact counted
  | bufferUl feedback =>
    cases done
    exact counted

/-- **Feedbacks in any reachable state.** The counters are right, the downlink accepts every
list of feedbacks for known processes, and the uplink exactly the acceptable ones. -/
theorem triggers_accept (maxHarqReTx : Nat → Nat) (numHarqProcess : Nat) (s : HarqState)
    (reachable : Machine.Reaches (step maxHarqReTx numHarqProcess) Allowed Start s) :
    s.ueMap.Counted ∧
    (∀ dlHarqInfoList, Accepts .dl (s.ueMap.resetExpiredHARQ .dl numHarqProcess)
        (doSchedDlTriggerReq maxHarqReTx numHarqProcess s dlHarqInfoList) ↔
      s.ueMap.Known .dl (s.dlHarqToRetransmit ++ dlHarqInfoList)) ∧
    ∀ ulHarqInfoList, Accepts .ul (s.ueMap.resetExpiredHARQ .ul numHarqProcess)
        (doSchedUlTriggerReq maxHarqReTx numHarqProcess s ulHarqInfoList) ↔
      Acceptable maxHarqReTx numHarqProcess s ulHarqInfoList := by
  have counted : s.ueMap.Counted := by
    apply reachable.invariant fun s => s.ueMap.Counted
    · rintro _ rfl
      exact nofun
    · exact fun _ _ _ counted allowed done => step_counted counted allowed done
  exact ⟨counted, dlTrigger_iff counted, ulTrigger_iff counted⟩

/-! ## Two acknowledgements -/

/-- A first transmission of UE 1. -/
def firstTransmission : HarqProcess :=
  let dci : DciInfoElementTdma :=
    { rnti := 1, format := .ul, symStart := 12, numSym := 1, rv := [0], type := .data }
  ⟨true, .waitingFeedback, 0, some dci, [], []⟩

theorem settled_firstTransmission : Settled firstTransmission :=
  ⟨by decide, fun _ => ⟨_, rfl, by decide⟩, nofun⟩

/-- A UE with a process that waits for its feedback. -/
def waiting : HarqState where
  ueMap rnti :=
    if rnti = 1 then some ⟨.setMaxSize [0], ⟨[(0, firstTransmission)], 1, 1⟩⟩ else none
  dlHarqToRetransmit := []
  ulHarqToRetransmit := []

theorem reaches_waiting (maxHarqReTx : Nat → Nat) (numHarqProcess : Nat) :
    Machine.Reaches (step maxHarqReTx numHarqProcess) Allowed Start waiting := by
  let ue : HarqUe := ⟨.setMaxSize [0], .setMaxSize [0]⟩
  let configured : HarqUeMap := Function.update (fun _ => none) 1 (some ue)
  have first : Machine.Reaches (step maxHarqReTx numHarqProcess) Allowed Start
      ⟨configured, [], []⟩ :=
    .next (.start rfl) (e := .cschedUeConfigReq 1 [0]) ⟨by decide, by decide⟩ rfl
  have same : configured.setVector .ul 1 ⟨[(0, firstTransmission)], 1, 1⟩ = waiting.ueMap := by
    funext rnti
    by_cases here : rnti = 1
    · subst here
      rfl
    · simp [HarqUeMap.setVector, configured, waiting, here]
  have next : step maxHarqReTx numHarqProcess ⟨configured, [], []⟩
      (.newData .ul 1 firstTransmission) = some waiting :=
    congrArg (fun ueMap => some (⟨ueMap, [], []⟩ : HarqState)) same
  exact first.next (e := .newData .ul 1 firstTransmission) settled_firstTransmission next

/-- The process is acknowledged. -/
def ack : UlHarqInfo := ⟨⟨1, 0, 0⟩, .ok, 0, 0, []⟩

/-- One acknowledgement is accepted. -/
theorem triggers_accept_ack : Accepts .ul (waiting.ueMap.resetExpiredHARQ .ul 20)
      (doSchedUlTriggerReq (fun _ => 3) 20 waiting [ack]) := by
  apply ((triggers_accept (fun _ => 3) 20 waiting (reaches_waiting _ _)).2.2 [ack]).mpr
  constructor
  · intro info mem
    obtain rfl := List.mem_singleton.mp mem
    rfl
  · exact (List.pairwise_singleton _ ack).sublist List.filter_sublist

/-- The second of two acknowledgements is for a process that the first has erased. -/
theorem second_ack_fatal : ∃ (s : HarqState) (ulHarqInfoList : List UlHarqInfo),
    Machine.Reaches (step (fun _ => 3) 20) Allowed Start s ∧
    s.ueMap.Known .ul (s.ulHarqToRetransmit ++ ulHarqInfoList) ∧
    ¬ Accepts .ul (s.ueMap.resetExpiredHARQ .ul 20)
      (doSchedUlTriggerReq (fun _ => 3) 20 s ulHarqInfoList) := by
  refine ⟨waiting, [ack, ack], reaches_waiting _ _, ?_, ?_⟩
  · intro info mem
    obtain rfl : info = ack := by simpa [waiting] using mem
    rfl
  · have fatal : doSchedUlTriggerReq (fun _ => 3) 20 waiting [ack, ack] = none := by rfl
    rw [fatal]
    exact accepts_none

end HarqState

end Ns3.Nr
