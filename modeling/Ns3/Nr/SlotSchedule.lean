import Ns3.Nr.HarqConservation

/-!
# The allocations of a slot

`DoScheduleDl` and `DoScheduleUl`: HARQ retransmissions first, then new data for the UEs that
have no allocation yet. How the subclasses place new data is a parameter.
-/

namespace Ns3.Nr

open List

/-- The RNTIs of the UEs with data, by beam. -/
abbrev ActiveUes := List ((Nat × Nat) × List Nat)

namespace ActiveUes

/-- The UE joins those of its beam. -/
def insert (beam : Nat × Nat) (rnti : Nat) : ActiveUes → ActiveUes
  | [] => [(beam, [rnti])]
  | entry :: rest =>
    if entry.1 = beam then (entry.1, entry.2 ++ [rnti]) :: rest
    else entry :: insert beam rnti rest

/-- All the RNTIs. -/
def rntis (active : ActiveUes) : List Nat := active.flatMap Prod.snd

/-- The search of the RNTI, which stops when a beam becomes empty. -/
def drop (rnti : Nat) : ActiveUes → ActiveUes
  | [] => []
  | entry :: rest =>
    let ueInfos := entry.2.erase rnti
    if ueInfos = [] then rest else (entry.1, ueInfos) :: drop rnti rest

end ActiveUes

/-- `ComputeActiveUe` over the UEs in the order of the map: `active` are those with bytes to
send and space for a process. -/
def computeActiveUe (ueMap : UeHarqMap) (active : Nat → Bool) (order : List Nat) : ActiveUes :=
  order.foldl (fun activeUe rnti =>
    match ueMap rnti with
    | none => activeUe
    | some ue => if active rnti then activeUe.insert ue.beamConfId rnti else activeUe) []

/-- The UEs with an allocation are removed. -/
def removeAllocated (allocations : List VarTtiAllocInfo) (active : ActiveUes) : ActiveUes :=
  allocations.foldl (fun active alloc => active.drop alloc.dci.rnti) active

/-! ## New data -/

/-- What a subclass does for a direction: the symbols of the beams and the RBGs of the UEs
(`AssignDLRBG`), the DCI of a UE (`CreateDlDci`) and the next beam (`ChangeDlBeam`). -/
structure DataAllocator where
  symPerBeam : Nat → ActiveUes → Nat × Nat → Nat
  hasRbg : Nat → Bool
  shuffle : List Nat → List Nat
  shuffled : ∀ rntis, (shuffle rntis).Perm rntis
  createDci : PointInFTPlane → Nat → Nat → Option (VarTtiAllocInfo × PointInFTPlane)
  own : ∀ spoint rnti symOfBeam alloc spoint',
    createDci spoint rnti symOfBeam = some (alloc, spoint') → alloc.dci.rnti = rnti
  changeBeam : PointInFTPlane → Nat → PointInFTPlane

/-- What the loop over the UEs of a beam changes. -/
structure BeamRun where
  spoint : PointInFTPlane
  slotAlloc : SlotAllocInfo
  symbStartDci : List Nat
  allocSym : Nat
  assigned : Bool

/-- What the loop over the beams changes. -/
structure DataRun where
  spoint : PointInFTPlane
  slotAlloc : SlotAllocInfo
  usedSym : Nat

section
variable (allocator : DataAllocator) (format : DciFormat)

/-- Uplink allocations go to the front. -/
def SlotAllocInfo.emplace (slotAlloc : SlotAllocInfo) (alloc : VarTtiAllocInfo) : SlotAllocInfo :=
  { slotAlloc with
    varTtiAllocInfo :=
      match format with
      | .dl => slotAlloc.varTtiAllocInfo ++ [alloc]
      | .ul => alloc :: slotAlloc.varTtiAllocInfo }

def scheduleDataUe (symOfBeam : Nat) (s : BeamRun) (rnti : Nat) : BeamRun :=
  if allocator.hasRbg rnti then
    match allocator.createDci s.spoint rnti symOfBeam with
    | none => s
    | some (alloc, spoint) =>
      { spoint
        slotAlloc := s.slotAlloc.emplace format alloc
        symbStartDci := alloc.dci.symStart :: s.symbStartDci
        allocSym :=
          if alloc.dci.symStart ∈ s.symbStartDci then s.allocSym
          else s.allocSym + alloc.dci.numSym
        assigned := true }
  else s

def scheduleDataBeam (symOfBeam : Nat) (rntis : List Nat) (s : DataRun) : DataRun :=
  if symOfBeam = 0 then s
  else
    let run := (allocator.shuffle rntis).foldl (scheduleDataUe allocator format symOfBeam)
      ⟨s.spoint, s.slotAlloc, [], 0, false⟩
    if run.assigned then
      { spoint := allocator.changeBeam run.spoint symOfBeam
        slotAlloc := { run.slotAlloc with
          numSymAlloc := (run.slotAlloc.numSymAlloc + run.allocSym) % 2 ^ 32 }
        usedSym := (s.usedSym + run.allocSym) % 256 }
    else ⟨run.spoint, run.slotAlloc, s.usedSym⟩

/-- `DoScheduleDlData` and `DoScheduleUlData` -/
def doScheduleData (symAvail : Nat) (active : ActiveUes) (spoint : PointInFTPlane)
    (slotAlloc : SlotAllocInfo) : DataRun :=
  active.foldl (fun s beam =>
    scheduleDataBeam allocator format (allocator.symPerBeam symAvail active beam.1) beam.2 s)
    ⟨spoint, slotAlloc, 0⟩

/-- The end of both functions, with the symbols that HARQ has left. -/
def scheduleNewData {Info : Type} (active : ActiveUes) (symAvail : Nat) (s : HarqRun Info) :
    HarqRun Info :=
  let active := removeAllocated s.slotAlloc.varTtiAllocInfo active
  if 0 < symAvail ∧ active ≠ [] then
    let run := doScheduleData allocator format symAvail active s.startingPoint s.slotAlloc
    { s with startingPoint := run.spoint, slotAlloc := run.slotAlloc }
  else s

end

/-- The retransmissions of `DoScheduleDl`, if there are any. -/
def retransmitDl (bandwidthInRbg : Nat) (activeDlHarq : ActiveHarqMap)
    (dlHarqFeedback : List DlHarqInfo) (s : HarqRun DlHarqInfo) : Option (HarqRun DlHarqInfo) :=
  if activeDlHarq = [] then some s
  else scheduleDlHarq bandwidthInRbg activeDlHarq dlHarqFeedback s

/-- The retransmissions of `DoScheduleUl`, if there are any. -/
def retransmitUl (bandwidthInRbg : Nat) (ulHarqFeedback : List UlHarqInfo) (fuel : Nat)
    (s : HarqRun UlHarqInfo) : Option (HarqRun UlHarqInfo) :=
  if ulHarqFeedback = [] then some s
  else scheduleUlHarq bandwidthInRbg ulHarqFeedback fuel 0 s

/-- `DoScheduleDl`, where `s` has no symbol used. -/
def doScheduleDl (allocator : DataAllocator) (bandwidthInRbg : Nat) (activeDlHarq : ActiveHarqMap)
    (activeDlUe : ActiveUes) (dlHarqFeedback : List DlHarqInfo) (s : HarqRun DlHarqInfo) :
    Option (HarqRun DlHarqInfo) := do
  let s' ← retransmitDl bandwidthInRbg activeDlHarq dlHarqFeedback s
  return scheduleNewData allocator .dl activeDlUe (sub8 s.symAvail s'.symUsed) s'

/-- `DoScheduleSrs` for the UE whose offset has come. -/
def doScheduleSrs {Info : Type} (rnti bandwidthInRbg : Nat) : Nat → HarqRun Info → HarqRun Info
  | 0, s => s
  | n + 1, s =>
    let sym := sub8 s.startingPoint.sym 1
    let dci : DciInfoElementTdma := {
      rnti, format := .ul, symStart := sym, numSym := 1, mcs := [0], tbSize := [0], ndi := [1]
      rv := [0], type := .srs, rbgBitmask := List.replicate bandwidthInRbg 1 }
    doScheduleSrs rnti bandwidthInRbg n { s with
      startingPoint := { s.startingPoint with sym }
      symAvail := sub8 s.symAvail 1
      slotAlloc := {
        numSymAlloc := (s.slotAlloc.numSymAlloc + 1) % 2 ^ 32
        varTtiAllocInfo := ⟨dci, []⟩ :: s.slotAlloc.varTtiAllocInfo } }

/-- The sounding of a UE, if there is one in the slot. -/
def soundSrs {Info : Type} (srs : Option Nat) (bandwidthInRbg srsCtrlSymbols : Nat)
    (s : HarqRun Info) : HarqRun Info :=
  match srs with
  | none => s
  | some rnti => doScheduleSrs rnti bandwidthInRbg srsCtrlSymbols s

/-- `DoScheduleUl`, where `s` has no symbol used. -/
def doScheduleUl (allocator : DataAllocator) (bandwidthInRbg srsCtrlSymbols : Nat)
    (srs : Option Nat) (active : Nat → Bool) (order : List Nat)
    (ulHarqFeedback : List UlHarqInfo) (fuel : Nat) (s : HarqRun UlHarqInfo) :
    Option (HarqRun UlHarqInfo) := do
  let s := soundSrs srs bandwidthInRbg srsCtrlSymbols s
  let s' ← retransmitUl bandwidthInRbg ulHarqFeedback fuel s
  let activeUlUe := computeActiveUe s'.ueMap active order
  return scheduleNewData allocator .ul activeUlUe (sub8 s.symAvail s'.symUsed) s'

/-! ## Active UEs -/

namespace ActiveUes

/-- Every beam has UEs, and each UE is in one beam. -/
structure Valid (active : ActiveUes) : Prop where
  beams : ∀ entry ∈ active, entry.2 ≠ []
  rntis : active.rntis.Nodup

theorem valid_nil : Valid [] := ⟨nofun, .nil⟩

theorem perm_insert (beam : Nat × Nat) (rnti : Nat) (active : ActiveUes) :
    (active.insert beam rnti).rntis.Perm (rnti :: active.rntis) := by
  induction active with
  | nil => exact .refl _
  | cons entry rest ih =>
    unfold insert
    split
    · simp only [rntis, flatMap_cons, append_assoc]
      exact perm_middle
    · simp only [rntis] at ih ⊢
      exact (ih.append_left entry.2).trans perm_middle

theorem beams_insert (beam : Nat × Nat) (rnti : Nat) {active : ActiveUes}
    (beams : ∀ entry ∈ active, entry.2 ≠ []) :
    ∀ entry ∈ active.insert beam rnti, entry.2 ≠ [] := by
  induction active with
  | nil => simp [insert]
  | cons entry rest ih =>
    rw [forall_mem_cons] at beams
    unfold insert
    split
    · rw [forall_mem_cons]
      exact ⟨by simp, beams.2⟩
    · rw [forall_mem_cons]
      exact ⟨beams.1, ih beams.2⟩

theorem Valid.drop {active : ActiveUes} (valid : active.Valid) (rnti : Nat) :
    (active.drop rnti).Valid ∧ (active.drop rnti).rntis.Sublist active.rntis ∧
      rnti ∉ (active.drop rnti).rntis := by
  induction active with
  | nil => exact ⟨valid_nil, .refl _, nofun⟩
  | cons entry rest ih =>
    obtain ⟨some_, beams⟩ := forall_mem_cons.mp valid.beams
    have nodup := valid.rntis
    rw [ActiveUes.rntis, flatMap_cons, nodup_append'] at nodup
    obtain ⟨own, others, apart⟩ := nodup
    obtain ⟨valid', sub, gone⟩ := ih ⟨beams, others⟩
    unfold ActiveUes.drop
    dsimp only
    split
    · rename_i empty
      have only : entry.2 = [rnti] := by
        obtain ⟨first, tail, same⟩ := exists_cons_of_ne_nil some_
        rw [same, erase_cons] at empty
        split at empty
        · rename_i here
          rw [same, empty, eq_of_beq here]
        · cases empty
      refine ⟨⟨beams, others⟩, sublist_append_right _ _, fun mem => ?_⟩
      exact apart (only ▸ mem_singleton_self rnti) mem
    · rename_i left
      have own' : rnti ∉ entry.2.erase rnti := fun mem => (own.mem_erase_iff.mp mem).1 rfl
      refine ⟨⟨?_, ?_⟩, ?_, ?_⟩
      · exact forall_mem_cons.mpr ⟨left, valid'.beams⟩
      · rw [ActiveUes.rntis, flatMap_cons, nodup_append']
        exact ⟨own.sublist erase_sublist, valid'.rntis,
          fun _ mem mem' => apart (erase_subset mem) (sub.subset mem')⟩
      · rw [ActiveUes.rntis, ActiveUes.rntis, flatMap_cons, flatMap_cons]
        exact erase_sublist.append sub
      · rw [ActiveUes.rntis, flatMap_cons, mem_append, not_or]
        exact ⟨own', gone⟩

theorem valid_insert {active : ActiveUes} (valid : active.Valid) {rnti : Nat}
    (fresh : rnti ∉ active.rntis) (beam : Nat × Nat) : (active.insert beam rnti).Valid where
  beams := beams_insert beam rnti valid.beams
  rntis := (perm_insert beam rnti active).nodup_iff.mpr (nodup_cons.mpr ⟨fresh, valid.rntis⟩)

end ActiveUes

theorem valid_computeActiveUe (ueMap : UeHarqMap) (active : Nat → Bool) {order : List Nat}
    (nodup : order.Nodup) : (computeActiveUe ueMap active order).Valid := by
  have run : ∀ order : List Nat, order.Nodup → ∀ activeUe : ActiveUes, activeUe.Valid →
      (∀ rnti ∈ order, rnti ∉ activeUe.rntis) →
      (order.foldl (fun activeUe rnti =>
        match ueMap rnti with
        | none => activeUe
        | some ue =>
          if active rnti then activeUe.insert ue.beamConfId rnti else activeUe)
        activeUe).Valid := by
    intro order
    induction order with
    | nil => exact fun _ _ valid _ => valid
    | cons rnti rest ih =>
      intro nodup activeUe valid fresh
      rw [nodup_cons] at nodup
      rw [forall_mem_cons] at fresh
      rw [foldl_cons]
      cases ueMap rnti with
      | none => exact ih nodup.2 activeUe valid fresh.2
      | some ue =>
        dsimp only
        split
        · apply ih nodup.2 _ (ActiveUes.valid_insert valid fresh.1 ue.beamConfId)
          intro other mem inside
          obtain rfl | inside := mem_cons.mp
            ((ActiveUes.perm_insert ue.beamConfId rnti activeUe).mem_iff.mp inside)
          · exact nodup.1 mem
          · exact fresh.2 other mem inside
        · exact ih nodup.2 activeUe valid fresh.2
  exact run order nodup [] ActiveUes.valid_nil fun _ _ => nofun

theorem removeAllocated_spec (allocations : List VarTtiAllocInfo) {active : ActiveUes}
    (valid : active.Valid) :
    (removeAllocated allocations active).Valid ∧
      (removeAllocated allocations active).rntis.Sublist active.rntis ∧
      ∀ alloc ∈ allocations, alloc.dci.rnti ∉ (removeAllocated allocations active).rntis := by
  induction allocations generalizing active with
  | nil => exact ⟨valid, .refl _, nofun⟩
  | cons alloc rest ih =>
    obtain ⟨valid', sub, gone⟩ := valid.drop alloc.dci.rnti
    obtain ⟨valid'', sub', gone'⟩ := ih valid'
    refine ⟨valid'', sub'.trans sub, ?_⟩
    rw [forall_mem_cons]
    exact ⟨fun mem => gone (sub'.subset mem), gone'⟩

/-! ## The DCIs of new data -/

/-- The RNTIs of the data DCIs. -/
def dataRntis (slotAlloc : SlotAllocInfo) : List Nat :=
  (slotAlloc.varTtiAllocInfo.filter fun alloc => alloc.dci.type = .data).map fun alloc =>
    alloc.dci.rnti

/-- The data DCIs of the UE `rnti` are those from before and at most `more`. -/
def Gains (rnti : Nat) (slotAlloc slotAlloc' : SlotAllocInfo) (more : Nat) : Prop :=
  (dataRntis slotAlloc).count rnti ≤ (dataRntis slotAlloc').count rnti ∧
    (dataRntis slotAlloc').count rnti ≤ (dataRntis slotAlloc).count rnti + more

theorem Gains.trans {rnti : Nat} {a b c : SlotAllocInfo} {more more' : Nat}
    (first : Gains rnti a b more) (second : Gains rnti b c more') :
    Gains rnti a c (more + more') := by
  unfold Gains at *
  omega

section
variable (allocator : DataAllocator) (format : DciFormat)

theorem gains_emplace (slotAlloc : SlotAllocInfo) (alloc : VarTtiAllocInfo) (rnti : Nat) :
    Gains rnti slotAlloc (slotAlloc.emplace format alloc)
      (if alloc.dci.rnti = rnti then 1 else 0) := by
  unfold Gains dataRntis SlotAllocInfo.emplace
  cases format <;> by_cases data : alloc.dci.type = .data <;>
    simp [data, count_cons, count_append]

theorem gains_ue (symOfBeam : Nat) (s : BeamRun) (ue rnti : Nat) :
    Gains rnti s.slotAlloc (scheduleDataUe allocator format symOfBeam s ue).slotAlloc
      ([ue].count rnti) := by
  have unchanged : Gains rnti s.slotAlloc s.slotAlloc ([ue].count rnti) :=
    ⟨le_rfl, Nat.le_add_right _ _⟩
  unfold scheduleDataUe
  split
  · split
    · exact unchanged
    · rename_i alloc spoint created
      have own := allocator.own _ _ _ _ _ created
      have gain := gains_emplace format s.slotAlloc alloc rnti
      rw [own] at gain
      rw [count_singleton]
      simpa using gain
  · exact unchanged

theorem gains_beam (symOfBeam : Nat) (rntis : List Nat) (s : DataRun) (rnti : Nat) :
    Gains rnti s.slotAlloc (scheduleDataBeam allocator format symOfBeam rntis s).slotAlloc
      (rntis.count rnti) := by
  have run : ∀ (rntis : List Nat) (s : BeamRun), Gains rnti s.slotAlloc
      (rntis.foldl (scheduleDataUe allocator format symOfBeam) s).slotAlloc
      (rntis.count rnti) := by
    intro rntis
    induction rntis with
    | nil => exact fun s => ⟨le_rfl, le_rfl⟩
    | cons ue rest ih =>
      intro s
      have first := gains_ue allocator format symOfBeam s ue rnti
      have both := first.trans (ih (scheduleDataUe allocator format symOfBeam s ue))
      rwa [← count_append, singleton_append] at both
  have all := run (allocator.shuffle rntis) ⟨s.spoint, s.slotAlloc, [], 0, false⟩
  rw [(allocator.shuffled rntis).count_eq] at all
  unfold scheduleDataBeam
  split
  · exact ⟨le_rfl, Nat.le_add_right _ _⟩
  · dsimp only
    split <;> exact all

/-- A UE gets no more DCIs than it has entries. -/
theorem gains_data (symAvail : Nat) (active : ActiveUes) (spoint : PointInFTPlane)
    (slotAlloc : SlotAllocInfo) (rnti : Nat) :
    Gains rnti slotAlloc
      (doScheduleData allocator format symAvail active spoint slotAlloc).slotAlloc
      (active.rntis.count rnti) := by
  have run : ∀ (beams : ActiveUes) (s : DataRun), Gains rnti s.slotAlloc
      (beams.foldl (fun s beam => scheduleDataBeam allocator format
        (allocator.symPerBeam symAvail active beam.1) beam.2 s) s).slotAlloc
      (beams.rntis.count rnti) := by
    intro beams
    induction beams with
    | nil => exact fun s => ⟨le_rfl, le_rfl⟩
    | cons beam rest ih =>
      intro s
      have both := (gains_beam allocator format
        (allocator.symPerBeam symAvail active beam.1) beam.2 s rnti).trans (ih _)
      rw [ActiveUes.rntis, flatMap_cons, count_append]
      exact both
  exact run active ⟨spoint, slotAlloc, 0⟩

/-- **New data.** It gives no UE a second data DCI. -/
theorem scheduleNewData_nodup {Info : Type} {active : ActiveUes} (valid : active.Valid)
    (symAvail : Nat) (s : HarqRun Info) :
    (dataRntis (scheduleNewData allocator format active symAvail s).slotAlloc).Nodup ↔
      (dataRntis s.slotAlloc).Nodup := by
  obtain ⟨valid', -, gone⟩ := removeAllocated_spec s.slotAlloc.varTtiAllocInfo valid
  unfold scheduleNewData
  dsimp only
  split
  · generalize removeAllocated s.slotAlloc.varTtiAllocInfo active = left at *
    rw [nodup_iff_count_le_one, nodup_iff_count_le_one]
    apply forall_congr'
    intro rnti
    dsimp only
    have gains := gains_data allocator format symAvail left s.startingPoint s.slotAlloc rnti
    have once := nodup_iff_count_le_one.mp valid'.rntis rnti
    unfold Gains at gains
    by_cases allocated : rnti ∈ dataRntis s.slotAlloc
    · obtain ⟨alloc, mem, rfl⟩ := mem_map.mp allocated
      have none_ := count_eq_zero_of_not_mem (gone alloc (mem_filter.mp mem).1)
      omega
    · have none_ := count_eq_zero_of_not_mem allocated
      omega
  · exact Iff.rfl

end

end Ns3.Nr
