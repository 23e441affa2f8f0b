import Mathlib
import Ns3.Nr.SchedulerSrs

/-!
# HARQ retransmissions of the NR scheduler

`NrMacSchedulerHarqRr` for both directions. A failed `NS_ASSERT` goes on;
`none` is a failed `NS_ABORT_IF`, an `at` out of range, a null pointer, an end
iterator or a division by zero.
-/

namespace Ns3.Nr

inductive DciFormat where
  | dl
  | ul
  deriving DecidableEq

inductive VarTtiType where
  | srs
  | data
  | ctrl
  deriving DecidableEq

structure DciInfoElementTdma where
  rnti : Nat
  format : DciFormat
  symStart : Nat
  numSym : Nat
  mcs : List Nat := []
  tbSize : List Nat := []
  ndi : List Nat := []
  rv : List Nat := []
  type : VarTtiType
  bwpIndex : Nat := 0
  harqProcess : Nat := 0
  rbgBitmask : List Nat := []
  tpc : Nat := 0
  deriving DecidableEq

structure RlcPduInfo where
  lcid : Nat
  size : Nat
  deriving DecidableEq

inductive HarqStatus where
  | inactive
  | waitingFeedback
  | receivedFeedback
  deriving DecidableEq

structure HarqProcess where
  active : Bool
  status : HarqStatus
  timer : Nat
  dciElement : Option DciInfoElementTdma
  rlcPduInfo : List (List RlcPduInfo)
  nackStreamIndexes : List Nat

/-- With what the HARQ part reads and writes. -/
structure NrMacSchedulerUe extends NrMacSchedulerUeInfo where
  dlHarq : Nat → Option HarqProcess
  ulHarq : Nat → Option HarqProcess
  dlMRBRetx : Nat := 0
  ulMRBRetx : Nat := 0

abbrev UeHarqMap := Nat → Option NrMacSchedulerUe

structure VarTtiAllocInfo where
  dci : DciInfoElementTdma
  rlcPduInfo : List (List RlcPduInfo) := []

structure SlotAllocInfo where
  numSymAlloc : Nat
  varTtiAllocInfo : List VarTtiAllocInfo

structure PointInFTPlane where
  rbg : Nat
  sym : Nat

/-- The UE and the process that a feedback is about. -/
abbrev HarqKey := Nat × Nat

structure HarqInfo where
  rnti : Nat
  harqProcessId : Nat
  bwpIndex : Nat
  deriving DecidableEq

def HarqInfo.key (info : HarqInfo) : HarqKey := (info.rnti, info.harqProcessId)

inductive ReceptionStatus where
  | ok
  | notOk
  | notValid
  deriving DecidableEq

structure UlHarqInfo extends HarqInfo where
  receptionStatus : ReceptionStatus
  tpc : Nat
  numRetx : Nat
  ulReception : List Nat

def UlHarqInfo.isReceivedOk (info : UlHarqInfo) : Bool := info.receptionStatus = .ok

inductive DlHarqStatus where
  | ack
  | nack
  | none
  deriving DecidableEq

structure DlHarqInfo extends HarqInfo where
  harqStatus : List DlHarqStatus
  numRetx : List Nat

def VarTtiAllocInfo.key (alloc : VarTtiAllocInfo) : HarqKey :=
  (alloc.dci.rnti, alloc.dci.harqProcess)

/-- A difference of `uint8_t`. -/
def sub8 (a b : Nat) : Nat := (a + 256 - b % 256) % 256

/-- What the loops over the feedbacks change. -/
structure HarqRun (Info : Type) where
  ueMap : UeHarqMap
  startingPoint : PointInFTPlane
  symAvail : Nat
  symUsed : Nat
  harqToRetransmit : List Info
  slotAlloc : SlotAllocInfo

/-! ## Uplink -/

/-- One feedback of `ScheduleUlHarq`. -/
def scheduleUlFeedback (bandwidthInRbg : Nat) (info : UlHarqInfo) (s : HarqRun UlHarqInfo) :
    Option (HarqRun UlHarqInfo) :=
  if info.isReceivedOk then none
  else do
    let ue ← s.ueMap info.rnti
    let process ← ue.ulHarq info.harqProcessId
    let retx ← process.dciElement
    let process := { process with status := .waitingFeedback, timer := 0 }
    if retx.numSym ≤ s.symAvail then do
      let rv ← retx.rv.head?
      let dci := { retx with
        symStart := sub8 s.startingPoint.sym retx.numSym
        ndi := [0]
        rv := [(rv + 1) % 256]
        type := .data
        harqProcess := info.harqProcessId }
      let process := { process with dciElement := some dci }
      let ue := { ue with
        ulHarq := Function.update ue.ulHarq info.harqProcessId (some process)
        ulMRBRetx := dci.numSym * bandwidthInRbg % 2 ^ 32 }
      return { s with
        ueMap := Function.update s.ueMap info.rnti (some ue)
        startingPoint := { s.startingPoint with sym := sub8 s.startingPoint.sym dci.numSym }
        symAvail := s.symAvail - retx.numSym
        symUsed := (s.symUsed + retx.numSym) % 256
        slotAlloc := {
          numSymAlloc := (s.slotAlloc.numSymAlloc + dci.numSym) % 2 ^ 32
          varTtiAllocInfo := ⟨dci, []⟩ :: s.slotAlloc.varTtiAllocInfo } }
    else
      let ue := { ue with
        ulHarq := Function.update ue.ulHarq info.harqProcessId (some process) }
      return { s with
        ueMap := Function.update s.ueMap info.rnti (some ue)
        harqToRetransmit := s.harqToRetransmit ++ [info] }

/-- The loop of `ScheduleUlHarq`, whose index is a `uint16_t`. -/
def scheduleUlHarq (bandwidthInRbg : Nat) (ulHarqFeedback : List UlHarqInfo) :
    Nat → Nat → HarqRun UlHarqInfo → Option (HarqRun UlHarqInfo)
  | fuel, i, s =>
    match ulHarqFeedback[i]? with
    | none => some s
    | some info =>
      if s.symAvail = 0 then some s
      else
        match fuel with
        | 0 => none
        | fuel + 1 => do
          let s ← scheduleUlFeedback bandwidthInRbg info s
          scheduleUlHarq bandwidthInRbg ulHarqFeedback fuel ((i + 1) % 2 ^ 16) s

/-! ## Downlink -/

/-- `BufferHARQFeedback` -/
def bufferHarqFeedback (dlHarqFeedback : List DlHarqInfo) (toRetransmit : List DlHarqInfo)
    (rnti harqProcess : Nat) : List DlHarqInfo :=
  match dlHarqFeedback.find? fun feedback =>
      feedback.rnti = rnti ∧ feedback.harqProcessId = harqProcess with
  | none => toRetransmit
  | some feedback => toRetransmit ++ [feedback]

/-- The vectors of a retransmission: a stream without NACK is not sent again. -/
def retransmitStreams (nacks : List Nat) (old : DciInfoElementTdma) : Option DciInfoElementTdma :=
  let streams := old.tbSize.length
  if streams ≤ old.mcs.length ∧ streams ≤ old.rv.length ∧ streams ≤ old.ndi.length then
    let perStream (n : Nat) (resent : Nat → Nat) (other : Nat) : List Nat :=
      (List.range n).map fun stream =>
        if stream < streams then if stream ∈ nacks then resent stream else other else 0
    some { old with
      tbSize := perStream streams (fun stream => old.tbSize.getD stream 0) 0
      mcs := perStream old.mcs.length (fun stream => old.mcs.getD stream 0) 255
      rv := perStream old.rv.length (fun stream => (old.rv.getD stream 0 + 1) % 256) 0
      ndi := perStream old.ndi.length (fun _ => 0) 255 }
  else none

/-- A process of a beam in `ScheduleDlHarq`, with the UEs that have an allocation. -/
def scheduleDlProcess (bandwidthInRbg symPerBeam : Nat) (dlHarqFeedback : List DlHarqInfo)
    (key : HarqKey) (s : HarqRun DlHarqInfo) (allocatedUe : List Nat) :
    Option (HarqRun DlHarqInfo × List Nat) := do
  let ue ← s.ueMap key.1
  let process ← ue.dlHarq key.2
  let retx ← process.dciElement
  let process := { process with status := .waitingFeedback, timer := 0 }
  let rbgAssigned := retx.rbgBitmask.count 1 * retx.numSym
  let rbgAvail := (bandwidthInRbg + 2 ^ 32 - s.startingPoint.rbg) % 2 ^ 32 * symPerBeam % 2 ^ 32
  if retx.rnti ∈ allocatedUe ∨ rbgAvail < rbgAssigned then
    let ue := { ue with dlHarq := Function.update ue.dlHarq key.2 (some process) }
    return ({ s with
      ueMap := Function.update s.ueMap key.1 (some ue)
      harqToRetransmit :=
        bufferHarqFeedback dlHarqFeedback s.harqToRetransmit retx.rnti retx.harqProcess },
      allocatedUe)
  else
    let streams ← retransmitStreams process.nackStreamIndexes retx
    if symPerBeam = 0 then none
    else
      let rbgAssigned :=
        if rbgAssigned % symPerBeam = 0 then rbgAssigned / symPerBeam
        else rbgAssigned / symPerBeam + 1
      if retx.rbgBitmask.length < rbgAssigned then none
      else
        let dci := { streams with
          symStart := s.startingPoint.sym
          numSym := symPerBeam
          type := .data
          rbgBitmask := (List.range retx.rbgBitmask.length).map fun i =>
            if s.startingPoint.rbg ≤ i ∧ i < s.startingPoint.rbg + rbgAssigned then 1 else 0 }
        let process := { process with dciElement := some dci }
        let ue := { ue with dlHarq := Function.update ue.dlHarq key.2 (some process) }
        let ueMap := Function.update s.ueMap key.1 (some ue)
        let owner ← ueMap dci.rnti
        let owner := { owner with dlMRBRetx := dci.numSym * rbgAssigned % 2 ^ 32 }
        return ({ s with
          ueMap := Function.update ueMap dci.rnti (some owner)
          startingPoint := { s.startingPoint with
            rbg := (s.startingPoint.rbg + rbgAssigned) % 2 ^ 32 }
          slotAlloc := { s.slotAlloc with
            varTtiAllocInfo := s.slotAlloc.varTtiAllocInfo ++ [⟨dci, process.rlcPduInfo⟩] } },
          allocatedUe ++ [retx.rnti])

/-- The processes of a beam. -/
def scheduleDlBeam (bandwidthInRbg symPerBeam : Nat) (dlHarqFeedback : List DlHarqInfo) :
    List HarqKey → HarqRun DlHarqInfo → List Nat → Option (HarqRun DlHarqInfo × List Nat)
  | [], s, allocatedUe => some (s, allocatedUe)
  | key :: keys, s, allocatedUe => do
    let (s, allocatedUe) ←
      scheduleDlProcess bandwidthInRbg symPerBeam dlHarqFeedback key s allocatedUe
    scheduleDlBeam bandwidthInRbg symPerBeam dlHarqFeedback keys s allocatedUe

/-- The beams, in the order of the map. -/
def scheduleDlBeams (bandwidthInRbg symPerBeam : Nat) (dlHarqFeedback : List DlHarqInfo) :
    List (List HarqKey) → HarqRun DlHarqInfo → Option (HarqRun DlHarqInfo)
  | [], s => some s
  | beam :: beams, s => do
    let (s, allocatedUe) ← scheduleDlBeam bandwidthInRbg symPerBeam dlHarqFeedback beam s []
    let s := if allocatedUe = [] then s
      else { s with
        startingPoint := ⟨0, (s.startingPoint.sym + symPerBeam) % 256⟩
        symUsed := (s.symUsed + symPerBeam) % 256
        symAvail := sub8 s.symAvail symPerBeam
        slotAlloc := { s.slotAlloc with
          numSymAlloc := (s.slotAlloc.numSymAlloc + symPerBeam) % 2 ^ 32 } }
    scheduleDlBeams bandwidthInRbg symPerBeam dlHarqFeedback beams s

abbrev ActiveHarqMap := List ((Nat × Nat) × List HarqKey)

/-- `ScheduleDlHarq`, which divides the symbols among the beams. -/
def scheduleDlHarq (bandwidthInRbg : Nat) (activeDlHarq : ActiveHarqMap)
    (dlHarqFeedback : List DlHarqInfo) (s : HarqRun DlHarqInfo) : Option (HarqRun DlHarqInfo) :=
  if activeDlHarq = [] then none
  else
    scheduleDlBeams bandwidthInRbg (s.symAvail / activeDlHarq.length) dlHarqFeedback
      (activeDlHarq.map Prod.snd) s

/-! ## The active processes -/

/-- The process joins those of its beam. -/
def insertActive (beam : Nat × Nat) (key : HarqKey) : ActiveHarqMap → ActiveHarqMap
  | [] => [(beam, [key])]
  | entry :: rest =>
    if entry.1 = beam then (entry.1, entry.2 ++ [key]) :: rest
    else entry :: insertActive beam key rest

/-- `ComputeActiveHarq` before `SortDlHarq`. -/
def computeActiveHarq (ueMap : UeHarqMap) : List DlHarqInfo → ActiveHarqMap →
    Option ActiveHarqMap
  | [], active => some active
  | feedback :: rest, active => do
    let ue ← ueMap feedback.rnti
    let _ ← ue.dlHarq feedback.harqProcessId
    computeActiveHarq ueMap rest (insertActive ue.beamConfId feedback.key active)

end Ns3.Nr
