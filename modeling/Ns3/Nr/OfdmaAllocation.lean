import Ns3.Nr.OfdmaSymbols
import Ns3.Nr.SlotSchedule

/-!
# How `NrMacSchedulerOfdma` places new downlink data

`GetSymPerBeam` shares the symbols among the beams, `AssignDLRBG` gives the RBGs of a beam to its
UEs one by one, and `CreateDlDci` turns the number of them into a bitmask. Whom the subclass
prefers and how long the transport blocks are is a parameter.
-/

namespace Ns3.Nr

open Levelling List

/-- The scheduler, with what it reads of the UEs in a slot. -/
structure NrMacSchedulerOfdma where
  bandwidthInRbg : Nat
  dlNotchedRbgsMask : List Nat
  bufQueueSize : Nat → UInt32
  hash : HashOrder ((Nat × Nat) × Nat)
  /-- `std::sort` of the UEs of a beam, after these assignments. -/
  sort : List Nat → List Nat → List Nat
  sorted : ∀ assigned rntis, (sort assigned rntis).Perm rntis
  /-- The transport blocks of the UE are large enough, after these assignments. -/
  fulfilled : List Nat → Nat → Bool
  /-- `m_dlTbSize`, after all the assignments. -/
  dlTbSize : Nat → ActiveUes → Nat → List Nat
  dlMcs : Nat → List Nat
  bwpId : Nat
  tpc : Nat
  shuffle : List Nat → List Nat
  shuffled : ∀ rntis, (shuffle rntis).Perm rntis
  harqId : Nat → Nat
  rlcPduInfo : Nat → List (List RlcPduInfo)

namespace NrMacSchedulerOfdma

/-! ## `GetSymPerBeam` -/

/-- What is true of the active UEs: a beam has one entry, which is not empty, and each UE has
bytes to send. -/
def Backlogged (bufQueueSize : Nat → UInt32) (active : ActiveUes) : Prop :=
  (active.map Prod.fst).Nodup ∧ active ≠ [] ∧
    ∀ entry ∈ active, entry.2 ≠ [] ∧ ∀ rnti ∈ entry.2, 0 < bufQueueSize rnti

instance (bufQueueSize : Nat → UInt32) (active : ActiveUes) :
    Decidable (Backlogged bufQueueSize active) :=
  inferInstanceAs (Decidable (_ ∧ _ ∧ _))

/-- The map that `GetSymPerBeam` reads. -/
def activeUeMap (bufQueueSize : Nat → UInt32) (active : ActiveUes)
    (backlogged : Backlogged bufQueueSize active) : ActiveUeMap (Nat × Nat) where
  beams := active.map fun entry => (entry.1, entry.2.map bufQueueSize)
  keys := by
    rw [map_map]
    exact backlogged.1
  active := by simpa using backlogged.2.1
  ues := by
    intro el mem
    obtain ⟨entry, inside, rfl⟩ := mem_map.mp mem
    simpa using (backlogged.2.2 entry inside).1
  positive := by
    intro el mem size mem'
    obtain ⟨entry, inside, rfl⟩ := mem_map.mp mem
    obtain ⟨rnti, own, rfl⟩ := mem_map.mp mem'
    exact (backlogged.2.2 entry inside).2 rnti own

variable (ofdma : NrMacSchedulerOfdma)

/-- The symbols of a beam. -/
def symPerBeam (symAvail : Nat) (active : ActiveUes) (beam : Nat × Nat) : Nat :=
  if backlogged : Backlogged ofdma.bufQueueSize active then
    ((getSymPerBeam (activeUeMap _ active backlogged) (UInt32.ofNat symAvail) ofdma.hash).bind
      fun ret => (ret.find? fun el => el.1 = beam).map Prod.snd).getD 0
  else 0

/-! ## `AssignDLRBG` -/

/-- The RBGs that may be used. -/
def resources : Nat :=
  if 0 < ofdma.dlNotchedRbgsMask.length then ofdma.dlNotchedRbgsMask.count 1
  else ofdma.bandwidthInRbg

/-- The loop over the resources of a beam: who gets them, in turn. -/
def assignRbgs (rntis : List Nat) : (resources : Nat) → (assigned : List Nat) → List Nat
  | 0, assigned => assigned
  | resources + 1, assigned =>
    match (ofdma.sort assigned rntis).find? fun rnti => !ofdma.fulfilled assigned rnti with
    | none => assigned
    | some rnti => assignRbgs rntis resources (assigned ++ [rnti])

/-- `AssignDLRBG` for a beam. -/
def assignDlRbg (rntis : List Nat) : List Nat := ofdma.assignRbgs rntis ofdma.resources []

section
variable (symAvail : Nat) (active : ActiveUes)

/-- `m_dlRBG`, which counts an RBG once for each symbol of the beam. -/
def dlRbg (rnti : Nat) : Nat :=
  (active.map fun entry =>
    (ofdma.assignDlRbg entry.2).count rnti * ofdma.symPerBeam symAvail active entry.1).sum

end

/-! ## `CreateDlDci` -/

/-- The loop over the mask from the RBG `i` on, with the last RBG taken. -/
def takeRbgs (start : Nat) : (i : Nat) → (mask : List Nat) → (rbgNum lastRbg : Nat) →
    List Nat × Nat
  | _, [], _, lastRbg => ([], lastRbg)
  | i, bit :: mask, rbgNum, lastRbg =>
    if start ≤ i ∧ 0 < rbgNum ∧ bit = 1 then
      let (bits, lastRbg) := takeRbgs start (i + 1) mask (rbgNum - 1) i
      (bit :: bits, lastRbg)
    else
      let (bits, lastRbg) := takeRbgs start (i + 1) mask rbgNum lastRbg
      (0 :: bits, lastRbg)

/-- The mask without any notch, unless there is one. -/
def rbgMask : List Nat :=
  if ofdma.dlNotchedRbgsMask.length = 0 then List.replicate ofdma.bandwidthInRbg 1
  else ofdma.dlNotchedRbgsMask

/-- `CreateDlDci`, with the HARQ process and the RLC PDUs that the caller adds. -/
def createDlDci (symAvail : Nat) (active : ActiveUes) (spoint : PointInFTPlane)
    (rnti maxSym : Nat) : Option (VarTtiAllocInfo × PointInFTPlane) :=
  let dlTbSize := ofdma.dlTbSize symAvail active rnti
  if dlTbSize.countP (· < 10) = dlTbSize.length then none
  else
    let (rbgBitmask, lastRbg) := takeRbgs spoint.rbg 0 ofdma.rbgMask
      (ofdma.dlRbg symAvail active rnti / maxSym) spoint.rbg
    let dci : DciInfoElementTdma := {
      rnti, format := .dl, symStart := spoint.sym, numSym := maxSym % 256
      mcs := ofdma.dlMcs rnti
      tbSize := dlTbSize.map fun tbs => if tbs < 10 then 0 else tbs
      ndi := dlTbSize.map fun tbs => if tbs < 10 then 0 else 1
      rv := dlTbSize.map fun _ => 0
      type := .data, bwpIndex := ofdma.bwpId, tpc := ofdma.tpc
      harqProcess := ofdma.harqId rnti, rbgBitmask }
    some (⟨dci, ofdma.rlcPduInfo rnti⟩, { spoint with rbg := lastRbg + 1 })

/-- `ChangeDlBeam` -/
def changeDlBeam (spoint : PointInFTPlane) (symOfBeam : Nat) : PointInFTPlane :=
  ⟨0, (spoint.sym + symOfBeam) % 256⟩

/-- How the subclass places the data of the active UEs. -/
def allocator (symAvail : Nat) (active : ActiveUes) : DataAllocator where
  symPerBeam := ofdma.symPerBeam
  hasRbg rnti := ofdma.dlRbg symAvail active rnti ≠ 0
  shuffle := ofdma.shuffle
  shuffled := ofdma.shuffled
  createDci := ofdma.createDlDci symAvail active
  own := by
    intro spoint rnti symOfBeam alloc spoint' created
    unfold createDlDci at created
    dsimp only at created
    split at created
    · cases created
    · cases created
      rfl
  changeBeam := changeDlBeam

/-- `DoScheduleDl`: retransmissions, and then the data of the UEs that have no DCI yet. -/
def doScheduleDl (activeDlHarq : ActiveHarqMap) (activeDlUe : ActiveUes)
    (dlHarqFeedback : List DlHarqInfo) (s : HarqRun DlHarqInfo) : Option (HarqRun DlHarqInfo) := do
  let s' ← retransmitDl ofdma.bandwidthInRbg activeDlHarq dlHarqFeedback s
  let symAvail := sub8 s.symAvail s'.symUsed
  let active := removeAllocated s'.slotAlloc.varTtiAllocInfo activeDlUe
  return scheduleNewData (ofdma.allocator symAvail active) .dl activeDlUe symAvail s'

/-! ## The symbols of the beams -/

theorem find?_of_nodup {ret : BeamSymbolMap (Nat × Nat)} (nodup : (ret.map Prod.fst).Nodup)
    {el : (Nat × Nat) × Nat} (mem : el ∈ ret) :
    ((ret.find? fun other => other.1 = el.1).map Prod.snd).getD 0 = el.2 := by
  induction ret with
  | nil => cases mem
  | cons first rest ih =>
    rw [map_cons, nodup_cons] at nodup
    by_cases same : first.1 = el.1
    · obtain rfl | mem := mem_cons.mp mem
      · simp
      · exact absurd (same ▸ mem_map_of_mem mem) nodup.1
    · obtain rfl | mem := mem_cons.mp mem
      · exact absurd rfl same
      · simpa [same] using ih nodup.2 mem

variable {ofdma}

/-- The beams get no more symbols than there are. -/
theorem symPerBeam_fits {symAvail : Nat} (small : symAvail < 256) (active : ActiveUes) :
    (active.map fun entry => ofdma.symPerBeam symAvail active entry.1).sum ≤ symAvail := by
  unfold symPerBeam
  split
  · rename_i backlogged
    have avail : (UInt32.ofNat symAvail).toNat = symAvail := by
      rw [UInt32.toNat_ofNat']
      omega
    have le : UInt32.ofNat symAvail ≤ 255 := by
      rw [UInt32.le_iff_toNat_le, avail]
      exact Nat.le_of_lt_succ small
    generalize beams : activeUeMap ofdma.bufQueueSize active backlogged = activeDl
    have named : activeDl.beams.map Prod.fst = active.map Prod.fst := by
      rw [← beams, activeUeMap, map_map]
      rfl
    rw [getSymPerBeam_eq ofdma.hash le, avail]
    have keys := keys_order ofdma.hash activeDl (UInt32.ofNat symAvail)
    have same := units_order ofdma.hash (proportional activeDl (UInt32.ofNat symAvail))
    have most := units_proportional_le activeDl (UInt32.ofNat symAvail)
    rw [named] at keys
    rw [avail, ← same] at most
    rw [← same]
    generalize ofdma.hash.order (proportional activeDl (UInt32.ofNat symAvail)) = shares at *
    have nodup := keys.nodup_iff.mpr backlogged.1
    have some_ : shares ≠ [] := by
      rintro rfl
      have length := keys.length_eq
      simp at length
      exact backlogged.2.1 (length_eq_zero_iff.mp length.symm)
    have all := level_units (symAvail - units shares) some_ nodup
    rw [← level_keys (symAvail - units shares)] at keys nodup
    generalize level (symAvail - units shares) shares = ret at *
    have own : ret.map (fun el =>
        ((ret.find? fun other => other.1 = el.1).map Prod.snd).getD 0) = ret.map Prod.snd :=
      map_congr_left fun el mem => find?_of_nodup nodup mem
    have found : (active.map fun entry =>
        ((ret.find? fun other => other.1 = entry.1).map Prod.snd).getD 0).sum = units ret := by
      have perm := (keys.map fun beam =>
        ((ret.find? fun other => other.1 = beam).map Prod.snd).getD 0).sum_eq
      simp only [map_map, Function.comp_def] at perm
      rw [← perm, own]
      rfl
    simp only [Option.bind_some]
    rw [found]
    omega
  · simp

/-! ## The RBGs of the UEs -/

/-- Each of the UEs that get an RBG is of the beam, and there are no more of them than RBGs. -/
theorem assignRbgs_spec (rntis : List Nat) {resources : Nat} {assigned : List Nat}
    (own : ∀ rnti ∈ assigned, rnti ∈ rntis) :
    (ofdma.assignRbgs rntis resources assigned).length ≤ assigned.length + resources ∧
      ∀ rnti ∈ ofdma.assignRbgs rntis resources assigned, rnti ∈ rntis := by
  induction resources generalizing assigned with
  | zero => exact ⟨le_rfl, own⟩
  | succ resources ih =>
    unfold assignRbgs
    split
    · exact ⟨Nat.le_add_right _ _, own⟩
    · rename_i rnti found
      have mem := (ofdma.sorted assigned rntis).mem_iff.mp (mem_of_find?_eq_some found)
      have own' : ∀ other ∈ assigned ++ [rnti], other ∈ rntis := by
        intro other inside
        obtain inside | inside := mem_append.mp inside
        · exact own other inside
        · rwa [mem_singleton.mp inside]
      obtain ⟨few, own''⟩ := ih own'
      rw [length_append, length_singleton] at few
      exact ⟨by omega, own''⟩

/-- Distinct UEs have no more entries together than there are. -/
theorem counts_le {rntis : List Nat} (nodup : rntis.Nodup) (assigned : List Nat) :
    (rntis.map fun rnti => assigned.count rnti).sum ≤ assigned.length := by
  induction rntis generalizing assigned with
  | nil => exact Nat.zero_le _
  | cons rnti rest ih =>
    obtain ⟨fresh, nodup⟩ := nodup_cons.mp nodup
    have others := ih nodup (assigned.filter fun other => !(other == rnti))
    have same : rest.map (fun other => (assigned.filter fun other => !(other == rnti)).count other) =
        rest.map fun other => assigned.count other := by
      apply map_congr_left
      intro other mem
      apply count_filter
      simp only [Bool.not_eq_true', beq_eq_false_iff_ne]
      rintro rfl
      exact fresh mem
    have parts := length_eq_length_filter_add (l := assigned) (· == rnti)
    rw [← countP_eq_length_filter, ← count_eq_countP] at parts
    rw [same] at others
    rw [map_cons, sum_cons]
    omega

/-- The UEs of a beam together get no more RBGs than may be used. -/
theorem assignDlRbg_fits {rntis : List Nat} (nodup : rntis.Nodup) :
    (rntis.map fun rnti => (ofdma.assignDlRbg rntis).count rnti).sum ≤ ofdma.resources := by
  have few : (ofdma.assignDlRbg rntis).length ≤ [].length + ofdma.resources :=
    (@assignRbgs_spec ofdma rntis ofdma.resources [] nofun).1
  have counts := counts_le nodup (ofdma.assignDlRbg rntis)
  rw [length_nil] at few
  omega

/-! ## The bitmask -/

/-- The first `rbgNum` ones of the mask from `start` on have been taken. -/
structure Taken (start i : Nat) (mask : List Nat) (rbgNum lastRbg : Nat) (bits : List Nat)
    (lastRbg' : Nat) : Prop where
  length : bits.length = mask.length
  count : bits.count 1 = rbgNum
  inside : ∀ j, bits[j]? = some 1 → mask[j]? = some 1 ∧ start ≤ i + j ∧ i + j ≤ lastRbg'
  unmoved : rbgNum = 0 → lastRbg' = lastRbg
  moved : 0 < rbgNum → start ≤ lastRbg' ∧ i ≤ lastRbg' ∧
    (mask.drop (lastRbg' + 1 - i)).count 1 + rbgNum = (mask.drop (start - i)).count 1

theorem takeRbgs_spec {start i rbgNum lastRbg : Nat} {mask : List Nat}
    (enough : rbgNum ≤ (mask.drop (start - i)).count 1) :
    Taken start i mask rbgNum lastRbg (takeRbgs start i mask rbgNum lastRbg).1
      (takeRbgs start i mask rbgNum lastRbg).2 := by
  induction mask generalizing i rbgNum lastRbg with
  | nil =>
    obtain rfl : rbgNum = 0 := by simpa using enough
    exact ⟨rfl, rfl, nofun, fun _ => rfl, nofun⟩
  | cons bit mask ih =>
    unfold takeRbgs
    by_cases take : start ≤ i ∧ 0 < rbgNum ∧ bit = 1
    · obtain ⟨from_, some_, rfl⟩ := take
      have here : start - i = 0 := Nat.sub_eq_zero_of_le from_
      have next : start - (i + 1) = 0 := by omega
      rw [here, drop_zero, count_cons_self] at enough
      have taken := @ih (i + 1) (rbgNum - 1) i (by
        rw [next, drop_zero]
        omega)
      rw [if_pos ⟨from_, some_, rfl⟩]
      dsimp only
      obtain ⟨length, count, inside, unmoved, moved⟩ := taken
      have last : i ≤ (takeRbgs start (i + 1) mask (rbgNum - 1) i).2 ∧
          ((1 :: mask).drop ((takeRbgs start (i + 1) mask (rbgNum - 1) i).2 + 1 - i)).count 1 +
            rbgNum = mask.count 1 + 1 := by
        by_cases only : rbgNum - 1 = 0
        · rw [unmoved only, Nat.add_sub_cancel_left, drop_one, tail_cons]
          exact ⟨le_refl i, by omega⟩
        · obtain ⟨-, past, left⟩ := moved (pos_of_ne_zero only)
          have step : (takeRbgs start (i + 1) mask (rbgNum - 1) i).2 + 1 - i =
              (takeRbgs start (i + 1) mask (rbgNum - 1) i).2 + 1 - (i + 1) + 1 := by omega
          rw [next, drop_zero] at left
          rw [step, drop_succ_cons]
          exact ⟨by omega, by omega⟩
      constructor
      case length => simp [length]
      case count =>
        rw [count_cons_self, count]
        omega
      case inside =>
        intro j bit
        cases j with
        | zero => exact ⟨rfl, from_, last.1⟩
        | succ j =>
          obtain ⟨one, low, high⟩ := inside j bit
          exact ⟨one, by omega, by omega⟩
      case unmoved => omega
      case moved =>
        intro _
        rw [here, drop_zero, count_cons_self]
        exact ⟨by omega, last.1, last.2⟩
    · rw [if_neg take]
      dsimp only
      have same : 0 < rbgNum →
          ((bit :: mask).drop (start - i)).count 1 = (mask.drop (start - (i + 1))).count 1 := by
        intro some_
        by_cases from_ : start ≤ i
        · have other : bit ≠ 1 := fun one => take ⟨from_, some_, one⟩
          rw [Nat.sub_eq_zero_of_le from_, Nat.sub_eq_zero_of_le (by omega), drop_zero,
            drop_zero, count_cons_of_ne other]
        · have step : start - i = start - (i + 1) + 1 := by omega
          simp [step]
      have enough' : rbgNum ≤ (mask.drop (start - (i + 1))).count 1 := by
        by_cases some_ : 0 < rbgNum
        · exact same some_ ▸ enough
        · omega
      obtain ⟨length, count, inside, unmoved, moved⟩ := @ih (i + 1) rbgNum lastRbg enough'
      constructor
      case length => simp [length]
      case count => rw [count_cons_of_ne (by decide), count]
      case inside =>
        intro j bit
        cases j with
        | zero => cases bit
        | succ j =>
          obtain ⟨one, low, high⟩ := inside j bit
          exact ⟨one, by omega, by omega⟩
      case unmoved => exact unmoved
      case moved =>
        intro some_
        obtain ⟨from_, past, left⟩ := moved some_
        have step : (takeRbgs start (i + 1) mask rbgNum lastRbg).2 + 1 - i =
            (takeRbgs start (i + 1) mask rbgNum lastRbg).2 + 1 - (i + 1) + 1 := by omega
        rw [same some_, step, drop_succ_cons]
        exact ⟨from_, by omega, left⟩

end NrMacSchedulerOfdma

end Ns3.Nr
