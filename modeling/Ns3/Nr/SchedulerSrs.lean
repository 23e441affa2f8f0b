import Mathlib.Data.List.Perm.Basic
import Mathlib.Data.List.Perm.Lattice
import Mathlib.Data.List.Range
import Ns3.Library.Machine

/-!
# SRS periodicity and offsets

`NrMacSchedulerSrsDefault` hands out the offsets, and the UE map of
`NrMacSchedulerNs3` keeps the ones in use. A failed `NS_ASSERT` goes on, as in
an optimized build; `none` is a failed `NS_ABORT_IF` or `NS_FATAL_ERROR`.
-/

namespace Ns3.Nr

def standardPeriodicity : List Nat :=
  [2, 4, 5, 8, 10, 16, 20, 32, 40, 64, 80, 160, 320, 640, 1280, 2560]

structure SrsPeriodicityAndOffset where
  isValid : Bool := false
  periodicity : Nat := 0
  offset : Nat := 0

/-- What the SRS part reads and writes of a UE's representation. -/
structure NrMacSchedulerUeInfo where
  rnti : Nat
  beamConfId : Nat × Nat
  srsPeriodicity : Nat := 0
  srsOffset : Nat := 0
  deriving DecidableEq

/-- The entries of an `unordered_map`, in the order of an iteration. -/
abbrev UeMap := List (Nat × NrMacSchedulerUeInfo)

/-- The values of `GetInteger(0, i)` during one shuffle. -/
structure Draws where
  value : Nat → Nat
  within : ∀ i, value i ≤ i

structure NrMacSchedulerSrsDefault where
  periodicity : Nat
  /-- The last one is handed out first. -/
  availableOffsetValues : List Nat

/-- `std::swap` of two elements. -/
def swap (values : List Nat) (i j : Nat) : List Nat :=
  (values.set i (values.getD j 0)).set j (values.getD i 0)

/-- The shuffling loop from `i` down to 1. -/
def shuffle (draws : Draws) : Nat → List Nat → List Nat
  | 0, values => values
  | i + 1, values => shuffle draws i (swap values (i + 1) (draws.value (i + 1)))

namespace NrMacSchedulerSrsDefault

def create : NrMacSchedulerSrsDefault := ⟨0, []⟩

def addUe (srs : NrMacSchedulerSrsDefault) : NrMacSchedulerSrsDefault × SrsPeriodicityAndOffset :=
  match srs.availableOffsetValues.getLast? with
  | none => (srs, {})
  | some offset =>
    ({ srs with availableOffsetValues := srs.availableOffsetValues.dropLast },
      { isValid := true, periodicity := srs.periodicity, offset })

def removeUe (srs : NrMacSchedulerSrsDefault) (offset : Nat) : NrMacSchedulerSrsDefault :=
  { srs with availableOffsetValues := srs.availableOffsetValues ++ [offset] }

def setStartingPeriodicity (srs : NrMacSchedulerSrsDefault) (draws : Draws) (start : Nat) :
    Option NrMacSchedulerSrsDefault :=
  if srs.availableOffsetValues ≠ [] then none
  else if start ∉ standardPeriodicity then none
  else some ⟨start, shuffle draws (start - 1) (List.range start)⟩

def reassignSrsValue (srs : NrMacSchedulerSrsDefault) : UeMap → NrMacSchedulerSrsDefault × UeMap
  | [] => (srs, [])
  | ue :: ueMap =>
    let ret := srs.addUe
    let rest := reassignSrsValue ret.1 ueMap
    (rest.1, (ue.1, { ue.2 with
      srsPeriodicity := ret.2.periodicity, srsOffset := ret.2.offset }) :: rest.2)

/-- What `IncreasePeriodicity` and `DecreasePeriodicity` do with the standard
value they found. -/
def changePeriodicity (srs : NrMacSchedulerSrsDefault) (draws : Draws) (found : Option Nat)
    (ueMap : UeMap) : Option (NrMacSchedulerSrsDefault × UeMap × Bool) :=
  let cleared : NrMacSchedulerSrsDefault := { srs with availableOffsetValues := [] }
  match found with
  | none => some (cleared, ueMap, false)
  | some periodicity => do
    let started ← cleared.setStartingPeriodicity draws periodicity
    let (srs', ueMap') := started.reassignSrsValue ueMap
    return (srs', ueMap', true)

/-- With `std::upper_bound`. -/
def increasePeriodicity (srs : NrMacSchedulerSrsDefault) (draws : Draws) (ueMap : UeMap) :
    Option (NrMacSchedulerSrsDefault × UeMap × Bool) :=
  srs.changePeriodicity draws (standardPeriodicity.find? (srs.periodicity < ·)) ueMap

/-- With `std::lower_bound`, which finds the periodicity itself. -/
def decreasePeriodicity (srs : NrMacSchedulerSrsDefault) (draws : Draws) (ueMap : UeMap) :
    Option (NrMacSchedulerSrsDefault × UeMap × Bool) :=
  srs.changePeriodicity draws (standardPeriodicity.find? (srs.periodicity ≤ ·)) ueMap

end NrMacSchedulerSrsDefault

/-- The UE map of `NrMacSchedulerNs3` and its `m_schedulerSrs`. -/
structure SrsScheduler where
  ueMap : UeMap
  schedulerSrs : NrMacSchedulerSrsDefault

inductive SrsEvent where
  /-- With the order the map would have after an insertion. -/
  | ueConfig (rnti : Nat) (beamConfId : Nat × Nat) (order : UeMap) (draws : Draws)
  | ueRelease (rnti : Nat)
  | increase (order : UeMap) (draws : Draws)
  | decrease (order : UeMap) (draws : Draws)

namespace SrsScheduler

variable (s : SrsScheduler)

def find (rnti : Nat) : Option NrMacSchedulerUeInfo := s.ueMap.lookup rnti

def doCschedUeConfigReq (rnti : Nat) (beamConfId : Nat × Nat) (order : UeMap) (draws : Draws) :
    Option SrsScheduler :=
  match s.find rnti with
  | none =>
    if order.Perm ((rnti, { rnti, beamConfId }) :: s.ueMap) then
      let ret := s.schedulerSrs.addUe
      if ret.2.isValid then
        some ⟨order.map fun ue => if ue.1 = rnti then (ue.1, { ue.2 with
          srsPeriodicity := ret.2.periodicity, srsOffset := ret.2.offset }) else ue, ret.1⟩
      else do
        let (srs, ueMap, _) ← ret.1.increasePeriodicity draws order
        return ⟨ueMap, srs⟩
    else none
  | some _ =>
    some { s with ueMap := s.ueMap.map fun ue =>
      if ue.1 = rnti then (ue.1, { ue.2 with beamConfId }) else ue }

def doCschedUeReleaseReq (rnti : Nat) : Option SrsScheduler :=
  match s.find rnti with
  | none => none
  | some ue =>
    some ⟨s.ueMap.filter (·.1 ≠ rnti), s.schedulerSrs.removeUe ue.srsOffset⟩

def step : SrsEvent → Option SrsScheduler
  | .ueConfig rnti beamConfId order draws => s.doCschedUeConfigReq rnti beamConfId order draws
  | .ueRelease rnti => s.doCschedUeReleaseReq rnti
  | .increase order draws =>
    if order.Perm s.ueMap then do
      let (srs, ueMap, _) ← s.schedulerSrs.increasePeriodicity draws order
      return ⟨ueMap, srs⟩
    else none
  | .decrease order draws =>
    if order.Perm s.ueMap then do
      let (srs, ueMap, _) ← s.schedulerSrs.decreasePeriodicity draws order
      return ⟨ueMap, srs⟩
    else none

/-- The starting periodicity is set and there is no UE. -/
def Started : Prop :=
  s.ueMap = [] ∧ ∃ draws start,
    NrMacSchedulerSrsDefault.create.setStartingPeriodicity draws start = some s.schedulerSrs

/-- The UEs whose turn `DoScheduleSrs` finds at a slot counter; the loop keeps
the last one's RNTI. -/
def srsUes (srsSlotCounter : Nat) : UeMap :=
  match s.ueMap with
  | [] => []
  | first :: _ =>
    s.ueMap.filter (·.2.srsOffset = srsSlotCounter % first.2.srsPeriodicity)

/-- What the search of `DoScheduleSrs` leaves in `rnti`. -/
def srsRnti (srsSlotCounter : Nat) : Nat :=
  (s.srsUes srsSlotCounter).foldl (fun _ ue => ue.2.rnti) 0

end SrsScheduler

end Ns3.Nr
