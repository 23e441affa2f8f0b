import Ns3.Nr.SchedulerHarq

/-!
# `NrMacHarqVector`

The processes of a UE with a counter of the active ones, which has eight bits. `none` is a
failed `at`, a failed `NS_ABORT_IF` or a vector without space.
-/

namespace Ns3.Nr

open List

/-- `HarqProcess::Erase` -/
def HarqProcess.erase (process : HarqProcess) : HarqProcess :=
  { process with
    active := false
    status := .inactive
    timer := 0
    dciElement := none
    rlcPduInfo := [] }

/-- The processes are in the order of their iteration. -/
structure NrMacHarqVector where
  processes : List (Nat × HarqProcess)
  maxSize : UInt8
  usedSize : UInt8

namespace NrMacHarqVector

/-- `SetMaxSize` of a new vector, with the identifiers in the order of the hash map. -/
def setMaxSize (ids : List Nat) : NrMacHarqVector where
  processes := ids.map fun id => (id, ⟨false, .inactive, 0, none, [], []⟩)
  maxSize := UInt8.ofNat ids.length
  usedSize := 0

def get (v : NrMacHarqVector) (id : Nat) : Option HarqProcess :=
  (v.processes.find? fun p => p.1 = id).map Prod.snd

/-- The process of the identifier becomes another. -/
def set (v : NrMacHarqVector) (id : Nat) (process : HarqProcess) : NrMacHarqVector :=
  { v with processes := v.processes.map fun p => if p.1 = id then (id, process) else p }

def erase (v : NrMacHarqVector) (id : Nat) : Option NrMacHarqVector :=
  (v.get id).map fun process => { v.set id process.erase with usedSize := v.usedSize - 1 }

def firstAvailableId (v : NrMacHarqVector) : Nat :=
  match v.processes.find? fun p => !p.2.active with
  | some p => p.1
  | none => 255

def canInsert (v : NrMacHarqVector) : Bool := v.usedSize < v.maxSize

def insert (v : NrMacHarqVector) (element : HarqProcess) : Option (Nat × NrMacHarqVector) :=
  if v.maxSize ≤ v.usedSize ∨ element.active = false ∨ v.firstAvailableId = 255 then none
  else do
    let id := v.firstAvailableId
    let process ← v.get id
    let v' := v.set id element
    if process.active ∨ v'.firstAvailableId = id then none
    else return (id, { v' with usedSize := v.usedSize + 1 })

/-- The number of active processes. -/
def active (v : NrMacHarqVector) : Nat := v.processes.countP fun p => p.2.active

/-! ## The counter -/

/-- A process is either reset, or it has a status and a DCI with a redundancy version. -/
structure Settled (process : HarqProcess) : Prop where
  status : process.active = true ↔ process.status ≠ .inactive
  dci : process.active = true → ∃ dci, process.dciElement = some dci ∧ dci.rv ≠ []
  reset : process.active = false → process.dciElement = none

/-- The counter is the number of active processes. -/
structure Counted (v : NrMacHarqVector) : Prop where
  keys : (v.processes.map Prod.fst).Nodup
  size : v.processes.length ≤ 255
  used : v.usedSize.toNat = v.active
  settled : ∀ p ∈ v.processes, Settled p.2

variable {v v' : NrMacHarqVector} {id : Nat} {process : HarqProcess}

theorem settled_erase (process : HarqProcess) : Settled process.erase :=
  ⟨by simp [HarqProcess.erase], nofun, fun _ => rfl⟩

theorem counted_setMaxSize {ids : List Nat} (nodup : ids.Nodup) (size : ids.length ≤ 255) :
    (setMaxSize ids).Counted where
  keys := by
    rw [setMaxSize, map_map]
    simpa [Function.comp_def] using nodup
  size := by simpa [setMaxSize] using size
  used := by simp [setMaxSize, active, countP_map, Function.comp_def]
  settled := by
    intro p mem
    obtain ⟨id, _, rfl⟩ := mem_map.mp mem
    exact ⟨by simp, nofun, fun _ => rfl⟩

theorem mem_of_get (found : v.get id = some process) : (id, process) ∈ v.processes := by
  obtain ⟨p, here, rfl⟩ := Option.map_eq_some_iff.mp found
  have key : p.1 = id := of_decide_eq_true (find?_some here :)
  subst key
  exact mem_of_find?_eq_some here

@[simp]
theorem get_set (v : NrMacHarqVector) (id : Nat) (process : HarqProcess) (other : Nat) :
    (v.set id process).get other =
      (v.get other).map fun old => if other = id then process else old := by
  unfold get set
  rw [find?_map]
  have same : (fun p : Nat × HarqProcess => decide (p.1 = other)) ∘
      (fun p => if p.1 = id then (id, process) else p) = fun p => decide (p.1 = other) := by
    funext p
    dsimp only [Function.comp]
    split
    · rename_i key
      rw [key]
    · rfl
  rw [same]
  cases here : v.processes.find? fun p => decide (p.1 = other) with
  | none => rfl
  | some p =>
    have key : p.1 = other := of_decide_eq_true (find?_some here :)
    subst key
    simp only [Option.map_some]
    split <;> rfl

theorem keys_set (v : NrMacHarqVector) (id : Nat) (process : HarqProcess) :
    (v.set id process).processes.map Prod.fst = v.processes.map Prod.fst := by
  rw [set, map_map]
  apply map_congr_left
  intro p _
  dsimp only [Function.comp]
  split
  · rename_i key
    exact key.symm
  · rfl

theorem active_set (keys : (v.processes.map Prod.fst).Nodup) {old : HarqProcess}
    (found : v.get id = some old) (process : HarqProcess) :
    (v.set id process).active + old.active.toNat = v.active + process.active.toNat := by
  have mem := mem_of_get found
  obtain ⟨ps, maxSize, usedSize⟩ := v
  clear found
  unfold active set
  dsimp only
  induction ps with
  | nil => cases mem
  | cons p ps ih =>
    rw [map_cons, nodup_cons] at keys
    rw [map_cons, countP_cons, countP_cons]
    obtain rfl | mem := mem_cons.mp mem
    · have others : (ps.map fun p => if p.1 = id then (id, process) else p) = ps.map fun p => p := by
        apply map_congr_left
        intro p mem
        apply if_neg
        intro key
        have inside : p.1 ∈ ps.map Prod.fst := mem_map_of_mem mem
        rw [key] at inside
        exact keys.1 inside
      rw [others, map_id', if_pos rfl]
      cases old.active <;> cases process.active <;> simp <;> omega
    · have other : p.1 ≠ id := by
        intro key
        apply keys.1
        rw [key]
        exact mem_map_of_mem (f := Prod.fst) mem
      have rest := ih keys.2 mem
      rw [if_neg other]
      omega

/-- An update that keeps the counter right keeps the vector so. -/
theorem Counted.set (counted : v.Counted) (found : v.get id = some process)
    {new : HarqProcess} (settled : Settled new) {usedSize : UInt8}
    (used : usedSize.toNat + process.active.toNat = v.usedSize.toNat + new.active.toNat) :
    Counted { v.set id new with usedSize := usedSize } where
  keys := by
    have keys := keys_set v id new
    exact keys ▸ counted.keys
  size := by
    have keys := congrArg List.length (keys_set v id new)
    rw [length_map, length_map] at keys
    exact keys ▸ counted.size
  used := by
    have change := active_set counted.keys found new
    have before := counted.used
    change usedSize.toNat = (v.set id new).active
    omega
  settled := by
    intro p mem
    obtain ⟨q, mem', rfl⟩ := mem_map.mp mem
    split
    · exact settled
    · exact counted.settled q mem'

/-- An active process is erased, and the counter does not wrap around. -/
theorem Counted.erase (counted : v.Counted) (found : v.get id = some process)
    (active : process.active = true) : ∃ v', v.erase id = some v' ∧ v'.Counted ∧
      ∀ other, v'.get other = (v.get other).map fun old =>
        if other = id then process.erase else old := by
  have change := active_set counted.keys found process.erase
  have used := counted.used
  have some_ : 0 < v.usedSize.toNat := by
    simp only [active, HarqProcess.erase, Bool.toNat_true, Bool.toNat_false] at change
    omega
  refine ⟨{ v.set id process.erase with usedSize := v.usedSize - 1 }, ?_, ?_, ?_⟩
  · rw [NrMacHarqVector.erase, found]
    rfl
  · apply counted.set found (settled_erase process)
    have one : (1 : UInt8) ≤ v.usedSize := UInt8.le_iff_toNat_le.mpr some_
    rw [UInt8.toNat_sub_of_le _ _ one, active]
    simp only [HarqProcess.erase, Bool.toNat_true, Bool.toNat_false, UInt8.toNat_one]
    omega
  · exact get_set v id process.erase

theorem Counted.insert (counted : v.Counted) {element : HarqProcess} (settled : Settled element)
    (done : v.insert element = some (id, v')) : v'.Counted := by
  unfold NrMacHarqVector.insert at done
  split at done
  · cases done
  · rename_i space
    simp only [Option.bind_eq_bind, Option.bind_eq_some_iff] at done
    obtain ⟨process, found, done⟩ := done
    split at done
    · cases done
    · rename_i free
      cases done
      apply counted.set found settled
      have room : v.usedSize.toNat < v.maxSize.toNat := by
        rw [← UInt8.lt_iff_toNat_lt]
        exact UInt8.not_le.mp fun full => space (.inl full)
      have most := v.maxSize.toNat_lt
      have idle : process.active = false := by simpa using fun active => free (.inl active)
      have busy : element.active = true := by simpa using fun idle => space (.inr (.inl idle))
      rw [UInt8.toNat_add, idle, busy, UInt8.toNat_one]
      simp only [Bool.toNat_true, Bool.toNat_false]
      omega

end NrMacHarqVector

end Ns3.Nr
