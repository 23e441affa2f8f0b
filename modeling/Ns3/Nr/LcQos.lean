import Ns3.Nr.LcAlgorithm

/-!
# `NrMacSchedulerLcQos`

The downlink split: first the channels with a guaranteed rate, then what is left among all
the channels with data. `slotBytes` is the number of bytes of a rate in a slot, which the
source computes in floating point.
-/

namespace Ns3.Nr

open List

/-- The groups of a UE whose bearers have each an identifier of its own. -/
structure UeBearers extends UeLcgMap where
  distinct : (toUeLcgMap.channels.map UeLcgMap.Channel.lcId).Nodup

theorem UeBearers.eq_of_lcId (ue : UeBearers) {c d : UeLcgMap.Channel} (mem : c ∈ ue.channels)
    (mem' : d ∈ ue.channels) (same : c.lcId = d.lcId) : c = d :=
  inj_on_of_nodup_map ue.distinct mem mem' same

/-- One assignment is a part of what its channel gets. -/
theorem le_bytesFor {ret : List Assignation} {a : Assignation} (mem : a ∈ ret) :
    a.bytes ≤ bytesFor ret a.lcg a.lcId := by
  induction ret with
  | nil => cases mem
  | cons b ret ih =>
    rw [bytesFor_cons]
    obtain rfl | mem := mem_cons.mp mem
    · simp
    · exact Nat.le_add_left_of_le (ih mem)

namespace UeLcgMap

/-- A loop over the groups with a loop over the channels `cs` of each. -/
def regrouped (ueLCG : UeLcgMap) (cs : List Channel) : List Channel :=
  ueLCG.groups.flatMap fun group => cs.filter fun c => c.lcg = group.1

/-- The two loops visit channels that were collected group by group in the same order. -/
theorem regrouped_filter (ueLCG : UeLcgMap) (p : Channel → Bool) :
    ueLCG.regrouped (ueLCG.channels.filter p) = ueLCG.channels.filter p := by
  let own (group : UInt8 × NrMacSchedulerLCG) : List Channel :=
    group.2.lcMap.map fun lc => ⟨group.1, lc.1, lc.2⟩
  have others : ∀ (groups : List (UInt8 × NrMacSchedulerLCG)) (key : UInt8),
      key ∉ groups.map Prod.fst → (groups.flatMap own).filter (fun c => c.lcg = key) = [] := by
    intro groups key absent
    apply filter_eq_nil_iff.mpr
    intro c mem same
    obtain ⟨group, mem', inside⟩ := mem_flatMap.mp mem
    obtain ⟨lc, _, rfl⟩ := mem_map.mp inside
    exact absent (mem_map.mpr ⟨group, mem', of_decide_eq_true same⟩)
  have all : ∀ group : UInt8 × NrMacSchedulerLCG,
      (own group).filter (fun c => c.lcg = group.1) = own group := by
    intro group
    apply filter_eq_self.mpr
    intro c mem
    obtain ⟨lc, _, rfl⟩ := mem_map.mp mem
    exact decide_eq_true rfl
  have part : ∀ (groups : List (UInt8 × NrMacSchedulerLCG)), (groups.map Prod.fst).Nodup →
      ∀ group ∈ groups, (groups.flatMap own).filter (fun c => c.lcg = group.1) = own group := by
    intro groups
    induction groups with
    | nil => exact fun _ _ => nofun
    | cons first groups ih =>
      intro nodup group mem
      rw [map_cons, nodup_cons] at nodup
      rw [flatMap_cons, filter_append]
      obtain rfl | mem := mem_cons.mp mem
      · rw [all, others groups _ nodup.1, append_nil]
      · have none_ : (own first).filter (fun c => c.lcg = group.1) = [] := by
          apply filter_eq_nil_iff.mpr
          intro c inside same
          obtain ⟨lc, _, rfl⟩ := mem_map.mp inside
          apply nodup.1
          rw [show first.1 = group.1 from of_decide_eq_true same]
          exact mem_map_of_mem mem
        rw [none_, nil_append]
        exact ih nodup.2 group mem
  have whole : ueLCG.channels = ueLCG.groups.flatMap own := rfl
  rw [whole, filter_flatMap]
  apply flatMap_congr
  intro group mem
  rw [← filter_flatMap, filter_filter]
  simp only [Bool.and_comm]
  rw [← filter_filter, part ueLCG.groups ueLCG.keys group mem]

end UeLcgMap

/-! ## The split -/

namespace NrMacSchedulerLcQos

open UeLcgMap

section
variable (slotBytes : UInt64 → UInt32)

/-- A bearer with a guaranteed rate. -/
def Guaranteed (c : Channel) : Prop :=
  (c.lc.resourceType = .dgbr ∨ c.lc.resourceType = .gbr) ∧
    c.lc.eRabGuaranteedBitrateDl ≠ 18446744073709551615

instance (c : Channel) : Decidable (Guaranteed c) := inferInstanceAs (Decidable (_ ∧ _))

def restActiveLCs (ueLCG : UeLcgMap) : List Channel := ueLCG.channels.filter fun c => c.Pending

def gbrActiveLCs (ueLCG : UeLcgMap) : List Channel :=
  ueLCG.channels.filter fun c => c.Pending ∧ Guaranteed c

/-- The guaranteed rates in bytes a second. -/
def sumErabGuaranteedBitRate (ueLCG : UeLcgMap) : UInt64 :=
  ((gbrActiveLCs ueLCG).map fun c => c.lc.eRabGuaranteedBitrateDl / 8).sum

/-- The guaranteed bytes of a slot, or the queued bytes when they are fewer. -/
def need (c : Channel) : Nat :=
  (min (slotBytes (c.lc.eRabGuaranteedBitrateDl / 8)) c.lc.getTotalSize).toNat

/-- Each channel gets what it needs as long as there are bytes left. -/
def assignNeeds : (bytesLeftToBeAssigned : Nat) → List Channel → List (UInt8 × Nat) × Nat
  | bytesLeftToBeAssigned, [] => ([], bytesLeftToBeAssigned)
  | bytesLeftToBeAssigned, c :: rest =>
    let bytesAssigned :=
      if bytesLeftToBeAssigned ≤ need slotBytes c then bytesLeftToBeAssigned
      else need slotBytes c
    let others := assignNeeds (bytesLeftToBeAssigned - bytesAssigned) rest
    ((c.lcId, bytesAssigned) :: others.1, others.2)

/-- `AssignedBytesToGbrLCsList` and the bytes that are left. -/
def assignedBytesToGbrLCs (ueLCG : UeLcgMap) (tbs : Nat) : List (UInt8 × Nat) × Nat :=
  let gbr := gbrActiveLCs ueLCG
  if 1 < gbr.length ∧ tbs ≤ (sumErabGuaranteedBitRate ueLCG).toNat then
    if 0 < tbs then ((ueLCG.regrouped gbr).map fun c => (c.lcId, tbs / gbr.length), 0)
    else ([], tbs)
  else if 0 < gbr.length then assignNeeds slotBytes tbs (ueLCG.regrouped gbr)
  else ([], tbs)

/-- The first entry of the identifier gets more. -/
def addTo (bytesPerLc : Nat) (lcId : UInt8) : List (UInt8 × Nat) → List (UInt8 × Nat)
  | [] => []
  | e :: es =>
    if e.1 = lcId then (e.1, e.2 + bytesPerLc) :: es else e :: addTo bytesPerLc lcId es

/-- The last loop over the channels: only the entries for group 1 are merged. -/
def assignRest (bytesPerLc : Nat) :
    List (UInt8 × Nat) → List Channel → List Assignation × List (UInt8 × Nat)
  | gbr, [] => ([], gbr)
  | gbr, c :: rest =>
    if c.lcId ∈ gbr.map Prod.fst ∧ c.lcg = 1 then
      assignRest bytesPerLc (addTo bytesPerLc c.lcId gbr) rest
    else
      let others := assignRest bytesPerLc gbr rest
      (⟨c.lcg, c.lcId, bytesPerLc⟩ :: others.1, others.2)

/-- Every entry of the list is assigned to group 1. -/
def toGroup1 (gbr : List (UInt8 × Nat)) : List Assignation :=
  gbr.map fun e => ⟨1, e.1, e.2⟩

def assignBytesToDlLC (ueLCG : UeLcgMap) (tbs : Nat) : List Assignation :=
  let gbr := assignedBytesToGbrLCs slotBytes ueLCG tbs
  let active := restActiveLCs ueLCG
  let rest :=
    if active.length ≠ 0 ∧ 0 < gbr.2 then
      assignRest (gbr.2 / active.length) gbr.1 (ueLCG.regrouped active)
    else ([], gbr.1)
  rest.1 ++ toGroup1 rest.2

end

/-! ## The two lists -/

section
variable {slotBytes : UInt64 → UInt32}

theorem assignNeeds_names (left : Nat) (cs : List Channel) :
    (assignNeeds slotBytes left cs).1.map Prod.fst = cs.map Channel.lcId := by
  induction cs generalizing left with
  | nil => rfl
  | cons c rest ih => simp only [assignNeeds, map_cons, ih]

theorem assignNeeds_total (left : Nat) (cs : List Channel) :
    totalBytes (toGroup1 (assignNeeds slotBytes left cs).1) +
      (assignNeeds slotBytes left cs).2 = left := by
  induction cs generalizing left with
  | nil => simp [assignNeeds, toGroup1]
  | cons c rest ih =>
    have others := ih (left -
      if left ≤ need slotBytes c then left else need slotBytes c)
    simp only [assignNeeds, toGroup1, map_cons, totalBytes_cons] at others ⊢
    split at others <;> split <;> omega

variable {cs : List Channel} {ueLCG : UeLcgMap} {tbs : Nat}

theorem assignNeeds_enough {left : Nat} (enough : (cs.map (need slotBytes)).sum ≤ left) :
    (assignNeeds slotBytes left cs).1 = cs.map fun c => (c.lcId, need slotBytes c) := by
  induction cs generalizing left with
  | nil => rfl
  | cons c rest ih =>
    rw [map_cons, sum_cons] at enough
    have own : (if left ≤ need slotBytes c then left else need slotBytes c) = need slotBytes c := by
      split <;> omega
    simp only [assignNeeds, own, map_cons]
    rw [ih (by omega)]

theorem addTo_names (per : Nat) (lcId : UInt8) (gbr : List (UInt8 × Nat)) :
    (addTo per lcId gbr).map Prod.fst = gbr.map Prod.fst := by
  induction gbr with
  | nil => rfl
  | cons e es ih =>
    unfold addTo
    split <;> simp [ih]

theorem addTo_total {per : Nat} {lcId : UInt8} {gbr : List (UInt8 × Nat)}
    (mem : lcId ∈ gbr.map Prod.fst) :
    totalBytes (toGroup1 (addTo per lcId gbr)) = totalBytes (toGroup1 gbr) + per := by
  induction gbr with
  | nil => cases mem
  | cons e es ih =>
    unfold addTo
    split
    · simp only [toGroup1, map_cons, totalBytes_cons]
      omega
    · rename_i other
      rw [map_cons, mem_cons] at mem
      have inside := ih (mem.resolve_left fun same => other same.symm)
      simp only [toGroup1, map_cons, totalBytes_cons] at inside ⊢
      omega

theorem addTo_grows (per : Nat) (lcId : UInt8) (gbr : List (UInt8 × Nat)) (lcg lcId' : UInt8) :
    bytesFor (toGroup1 gbr) lcg lcId' ≤ bytesFor (toGroup1 (addTo per lcId gbr)) lcg lcId' := by
  induction gbr with
  | nil => exact Nat.le_refl _
  | cons e es ih =>
    unfold addTo
    simp only [toGroup1] at ih
    split <;> simp only [toGroup1, map_cons, bytesFor_cons] <;> split <;> omega

theorem assignRest_names (per : Nat) (gbr : List (UInt8 × Nat)) (cs : List Channel) :
    (assignRest per gbr cs).2.map Prod.fst = gbr.map Prod.fst := by
  induction cs generalizing gbr with
  | nil => rfl
  | cons c rest ih =>
    unfold assignRest
    split
    · rw [ih, addTo_names]
    · exact ih gbr

theorem assignRest_owned {per : Nat} {gbr : List (UInt8 × Nat)} {a : Assignation}
    (mem : a ∈ (assignRest per gbr cs).1) :
    ∃ c ∈ cs, c.lcg = a.lcg ∧ c.lcId = a.lcId := by
  induction cs generalizing gbr with
  | nil => cases mem
  | cons c rest ih =>
    unfold assignRest at mem
    split at mem
    · obtain ⟨d, inside, same⟩ := ih mem
      exact ⟨d, mem_cons_of_mem _ inside, same⟩
    · obtain rfl | mem := mem_cons.mp mem
      · exact ⟨c, mem_cons_self, rfl, rfl⟩
      · obtain ⟨d, inside, same⟩ := ih mem
        exact ⟨d, mem_cons_of_mem _ inside, same⟩

/-- Each channel gets the same share of what is left, in one list or in the other. -/
theorem assignRest_total (per : Nat) (gbr : List (UInt8 × Nat)) (cs : List Channel) :
    totalBytes (assignRest per gbr cs).1 + totalBytes (toGroup1 (assignRest per gbr cs).2) =
      totalBytes (toGroup1 gbr) + per * cs.length := by
  induction cs generalizing gbr with
  | nil => simp [assignRest]
  | cons c rest ih =>
    unfold assignRest
    rw [length_cons, Nat.mul_succ]
    split
    · rename_i merged
      rw [ih, addTo_total merged.1]
      omega
    · have others := ih gbr
      simp only [totalBytes_cons]
      omega

theorem assignRest_grows (per : Nat) (gbr : List (UInt8 × Nat)) (cs : List Channel)
    (lcg lcId : UInt8) : bytesFor (toGroup1 gbr) lcg lcId ≤
      bytesFor (toGroup1 (assignRest per gbr cs).2) lcg lcId := by
  induction cs generalizing gbr with
  | nil => exact Nat.le_refl _
  | cons c rest ih =>
    unfold assignRest
    split
    · exact Nat.le_trans (addTo_grows per c.lcId gbr lcg lcId) (ih _)
    · exact ih gbr

/-- The assignments are those of the last loop, which are for channels with data, and those of
the list, which has kept its identifiers and lost no bytes. -/
structure Merged (ueLCG : UeLcgMap) (tbs : Nat) (first : List (UInt8 × Nat) × Nat)
    (own : List Assignation) (gbr : List (UInt8 × Nat)) : Prop where
  names : gbr.map Prod.fst = first.1.map Prod.fst
  owned : ∀ a ∈ own, ∃ c ∈ ueLCG.channels, c.lcg = a.lcg ∧ c.lcId = a.lcId
  total : totalBytes own + totalBytes (toGroup1 gbr) ≤ totalBytes (toGroup1 first.1) + first.2
  grows : ∀ lcg lcId, bytesFor (toGroup1 first.1) lcg lcId ≤ bytesFor (toGroup1 gbr) lcg lcId
  spent : first.2 = 0 → own = [] ∧ gbr = first.1

theorem assignBytesToDlLC_merged (ueLCG : UeLcgMap) (tbs : Nat) :
    ∃ own gbr, assignBytesToDlLC slotBytes ueLCG tbs = own ++ toGroup1 gbr ∧
      Merged ueLCG tbs (assignedBytesToGbrLCs slotBytes ueLCG tbs) own gbr := by
  unfold assignBytesToDlLC
  generalize assignedBytesToGbrLCs slotBytes ueLCG tbs = first
  refine ⟨_, _, rfl, ?_⟩
  split
  · rename_i some_
    have visited : ueLCG.regrouped (restActiveLCs ueLCG) = restActiveLCs ueLCG :=
      ueLCG.regrouped_filter _
    rw [visited]
    have total := assignRest_total (first.2 / (restActiveLCs ueLCG).length) first.1
      (restActiveLCs ueLCG)
    have share := Nat.div_mul_le_self first.2 (restActiveLCs ueLCG).length
    exact {
      names := assignRest_names _ _ _
      owned := fun a mem => by
        obtain ⟨c, inside, same⟩ := assignRest_owned mem
        exact ⟨c, mem_of_mem_filter inside, same⟩
      total := by omega
      grows := assignRest_grows _ _ _
      spent := fun none_ => by omega }
  · exact {
      names := rfl
      owned := nofun
      total := by simp
      grows := fun _ _ => Nat.le_refl _
      spent := fun _ => ⟨rfl, rfl⟩ }

/-- The block is shared evenly among the guaranteed channels, because their rates of a second
are no less than the block of a slot. -/
def Overbooked (ueLCG : UeLcgMap) (tbs : Nat) : Prop :=
  1 < (gbrActiveLCs ueLCG).length ∧ tbs ≤ (sumErabGuaranteedBitRate ueLCG).toNat

/-- Nothing is put into the list. -/
def Unlisted (ueLCG : UeLcgMap) (tbs : Nat) : Prop :=
  gbrActiveLCs ueLCG = [] ∨ 1 < (gbrActiveLCs ueLCG).length ∧ tbs = 0

theorem gbrLCs_unlisted (unlisted : Unlisted ueLCG tbs) :
    assignedBytesToGbrLCs slotBytes ueLCG tbs = ([], tbs) := by
  unfold assignedBytesToGbrLCs
  obtain none_ | ⟨several, rfl⟩ := unlisted
  · simp [none_]
  · dsimp only
    rw [if_pos ⟨several, Nat.zero_le _⟩, if_neg (Nat.lt_irrefl 0)]

theorem gbrLCs_overbooked (listed : ¬ Unlisted ueLCG tbs) (overbooked : Overbooked ueLCG tbs) :
    assignedBytesToGbrLCs slotBytes ueLCG tbs =
      ((gbrActiveLCs ueLCG).map fun c => (c.lcId, tbs / (gbrActiveLCs ueLCG).length), 0) := by
  have some_ : tbs ≠ 0 := fun none_ => listed (.inr ⟨overbooked.1, none_⟩)
  have visited : ueLCG.regrouped (gbrActiveLCs ueLCG) = gbrActiveLCs ueLCG :=
    ueLCG.regrouped_filter _
  unfold Overbooked at overbooked
  unfold assignedBytesToGbrLCs
  rw [if_pos overbooked, if_pos (Nat.pos_of_ne_zero some_), visited]

theorem gbrLCs_needs (listed : ¬ Unlisted ueLCG tbs) (booked : ¬ Overbooked ueLCG tbs) :
    assignedBytesToGbrLCs slotBytes ueLCG tbs = assignNeeds slotBytes tbs (gbrActiveLCs ueLCG) := by
  have some_ : gbrActiveLCs ueLCG ≠ [] := fun none_ => listed (.inl none_)
  have visited : ueLCG.regrouped (gbrActiveLCs ueLCG) = gbrActiveLCs ueLCG :=
    ueLCG.regrouped_filter _
  unfold Overbooked at booked
  unfold assignedBytesToGbrLCs
  rw [if_neg booked, if_pos (length_pos_of_ne_nil some_), visited]

theorem gbrLCs_names (listed : ¬ Unlisted ueLCG tbs) :
    (assignedBytesToGbrLCs slotBytes ueLCG tbs).1.map Prod.fst =
      (gbrActiveLCs ueLCG).map Channel.lcId := by
  by_cases booked : Overbooked ueLCG tbs
  · rw [gbrLCs_overbooked listed booked, map_map]
    rfl
  · rw [gbrLCs_needs listed booked, assignNeeds_names]

theorem totalBytes_even (cs : List Channel) (share : Nat) :
    totalBytes (toGroup1 (cs.map fun c => (c.lcId, share))) = cs.length * share := by
  induction cs with
  | nil => simp [toGroup1]
  | cons c rest ih =>
    simp only [toGroup1, map_cons, totalBytes_cons, length_cons, Nat.succ_mul] at ih ⊢
    omega

theorem gbrLCs_total (ueLCG : UeLcgMap) (tbs : Nat) :
    totalBytes (toGroup1 (assignedBytesToGbrLCs slotBytes ueLCG tbs).1) +
      (assignedBytesToGbrLCs slotBytes ueLCG tbs).2 ≤ tbs := by
  by_cases listed : Unlisted ueLCG tbs
  · simp [gbrLCs_unlisted listed, toGroup1]
  · by_cases booked : Overbooked ueLCG tbs
    · rw [gbrLCs_overbooked listed booked, totalBytes_even]
      exact Nat.mul_div_le tbs _
    · rw [gbrLCs_needs listed booked]
      exact Nat.le_of_eq (assignNeeds_total _ _)

/-! ## The guarantees -/

/-- No more than the block, in the group of the channel, and to each guaranteed channel what it
needs when the block is large enough for all of them. -/
structure HonoursRates (slotBytes : UInt64 → UInt32) (ueLCG : UeLcgMap) (tbs : Nat)
    (ret : List Assignation) : Prop where
  most : totalBytes ret ≤ tbs
  owned : ∀ a ∈ ret, ∃ c ∈ ueLCG.channels, c.lcg = a.lcg ∧ c.lcId = a.lcId
  guaranteed : ((gbrActiveLCs ueLCG).map (need slotBytes)).sum ≤ tbs →
    ∀ c ∈ gbrActiveLCs ueLCG, need slotBytes c ≤ bytesFor ret c.lcg c.lcId

/-- Every guaranteed channel is in group 1, and an even share of the block is enough for each
when the block is shared so. -/
def Honourable (slotBytes : UInt64 → UInt32) (ueLCG : UeLcgMap) (tbs : Nat) : Prop :=
  Unlisted ueLCG tbs ∨ (∀ c ∈ gbrActiveLCs ueLCG, c.lcg = 1) ∧
    (Overbooked ueLCG tbs → tbs < ((gbrActiveLCs ueLCG).map (need slotBytes)).sum ∨
      ∀ c ∈ gbrActiveLCs ueLCG, need slotBytes c ≤ tbs / (gbrActiveLCs ueLCG).length)

theorem le_bytesFor_toGroup1 (f : Channel → Nat) {c : Channel} (mem : c ∈ cs) :
    f c ≤ bytesFor (toGroup1 (cs.map fun c => (c.lcId, f c))) 1 c.lcId := by
  have entry : (⟨1, c.lcId, f c⟩ : Assignation) ∈ toGroup1 (cs.map fun c => (c.lcId, f c)) := by
    rw [toGroup1, map_map]
    exact mem_map_of_mem (f := fun c : Channel => (⟨1, c.lcId, f c⟩ : Assignation)) mem
  exact le_bytesFor entry

theorem bytesFor_even (distinct : (cs.map Channel.lcId).Nodup) (share : Nat) (lcg lcId : UInt8) :
    bytesFor (toGroup1 (cs.map fun c => (c.lcId, share))) lcg lcId ≤ share := by
  induction cs with
  | nil => exact Nat.zero_le _
  | cons c rest ih =>
    rw [map_cons, nodup_cons] at distinct
    have others := ih distinct.2
    simp only [toGroup1, map_cons, bytesFor_cons] at others ⊢
    split
    · rename_i here
      have none_ : bytesFor (toGroup1 (rest.map fun c => (c.lcId, share))) lcg lcId = 0 := by
        rw [bytesFor, filter_eq_nil_iff.mpr, totalBytes_nil]
        intro a mem same
        rw [toGroup1, map_map] at mem
        obtain ⟨d, inside, rfl⟩ := mem_map.mp mem
        apply distinct.1
        rw [here.2, ← (of_decide_eq_true same).2]
        exact mem_map_of_mem inside
      rw [toGroup1] at none_
      omega
    · omega

/-- **The guaranteed rates.** The split honours the rates exactly when it is `Honourable`. -/
theorem honoursRates_iff (slotBytes : UInt64 → UInt32) (ue : UeBearers) (tbs : Nat) :
    HonoursRates slotBytes ue.toUeLcgMap tbs (assignBytesToDlLC slotBytes ue.toUeLcgMap tbs) ↔
    Honourable slotBytes ue.toUeLcgMap tbs := by
  obtain ⟨own, gbr, ret, merged⟩ := @assignBytesToDlLC_merged slotBytes ue.toUeLcgMap tbs
  have total := @gbrLCs_total slotBytes ue.toUeLcgMap tbs
  have inside : ∀ c ∈ gbrActiveLCs ue.toUeLcgMap, c ∈ ue.channels :=
    fun c mem => mem_of_mem_filter mem
  have most : totalBytes (own ++ toGroup1 gbr) ≤ tbs := by
    have := merged.total
    rw [totalBytes_append]
    omega
  rw [ret]
  by_cases listed : Unlisted ue.toUeLcgMap tbs
  · -- The list is empty, so every assignment is one of the last loop.
    have names := merged.names
    rw [gbrLCs_unlisted listed, map_nil, map_eq_nil_iff] at names
    subst names
    refine ⟨fun _ => .inl listed, fun _ => ⟨most, ?_, ?_⟩⟩
    · rw [toGroup1, map_nil, append_nil]
      exact merged.owned
    · intro fits c mem
      obtain none_ | ⟨-, rfl⟩ := listed
      · rw [none_] at mem
        cases mem
      · have none_ := List.sum_eq_zero_iff_forall_eq_nat.mp (Nat.le_zero.mp fits)
        rw [none_ _ (mem_map_of_mem mem)]
        exact Nat.zero_le _
  · have names := merged.names
    rw [gbrLCs_names listed] at names
    constructor
    · intro honours
      have group1 : ∀ c ∈ gbrActiveLCs ue.toUeLcgMap, c.lcg = 1 := by
        intro c mem
        have named : c.lcId ∈ gbr.map Prod.fst := by
          rw [names]
          exact mem_map_of_mem mem
        obtain ⟨e, mem', same⟩ := mem_map.mp named
        obtain ⟨d, mem'', here, same'⟩ := honours.owned ⟨1, e.1, e.2⟩
          (mem_append_right own (mem_map_of_mem mem'))
        rw [← ue.eq_of_lcId mem'' (inside c mem) (same'.trans same)]
        exact here
      refine .inr ⟨group1, fun overbooked => ?_⟩
      by_cases fits : ((gbrActiveLCs ue.toUeLcgMap).map (need slotBytes)).sum ≤ tbs
      · right
        intro c mem
        have guaranteed := honours.guaranteed fits c mem
        have spent := merged.spent
        rw [gbrLCs_overbooked listed overbooked] at spent
        obtain ⟨rfl, rfl⟩ := spent rfl
        rw [nil_append] at guaranteed
        apply Nat.le_trans guaranteed
        apply bytesFor_even
        exact ue.distinct.sublist (filter_sublist.map _)
      · exact .inl (Nat.lt_of_not_le fits)
    · rintro (unlisted | ⟨group1, even⟩)
      · exact absurd unlisted listed
      · refine ⟨most, ?_, ?_⟩
        · intro a mem
          obtain mem | mem := mem_append.mp mem
          · exact merged.owned a mem
          · obtain ⟨e, mem', rfl⟩ := mem_map.mp mem
            have named : e.1 ∈ (gbrActiveLCs ue.toUeLcgMap).map Channel.lcId := by
              rw [← names]
              exact mem_map_of_mem mem'
            obtain ⟨c, mem'', same⟩ := mem_map.mp named
            exact ⟨c, inside c mem'', group1 c mem'', same⟩
        · intro fits c mem
          have grows := merged.grows c.lcg c.lcId
          rw [bytesFor_append]
          suffices need slotBytes c ≤ bytesFor
              (toGroup1 (assignedBytesToGbrLCs slotBytes ue.toUeLcgMap tbs).1) c.lcg c.lcId by
            omega
          rw [group1 c mem]
          by_cases overbooked : Overbooked ue.toUeLcgMap tbs
          · rw [gbrLCs_overbooked listed overbooked]
            obtain scarce | share := even overbooked
            · omega
            · exact Nat.le_trans (share c mem) (le_bytesFor_toGroup1 (fun _ => _) mem)
          · rw [gbrLCs_needs listed overbooked, assignNeeds_enough fits]
            exact le_bytesFor_toGroup1 (need slotBytes) mem

/-- A slot of a quarter of a millisecond: 250 bytes at a rate of 8 Mb/s. -/
def quarter (rate : UInt64) : UInt32 := (rate / 4000).toUInt32

/-- The only bearer has a guaranteed rate and is in group 2, and what is assigned to it is
for group 1. -/
example : ∃ (ue : UeBearers) (tbs : Nat),
    ¬ HonoursRates quarter ue.toUeLcgMap tbs (assignBytesToDlLC quarter ue.toUeLcgMap tbs) := by
  let lc : NrMacSchedulerLC := ⟨100, 0, 0, .gbr, 8000000⟩
  refine ⟨⟨⟨[(2, ⟨[(3, lc)], by decide⟩)], by decide⟩, by decide⟩, 300, ?_⟩
  intro honours
  obtain ⟨c, mem, group, -⟩ := honours.owned ⟨1, 3, 100⟩ (by decide)
  obtain rfl := mem_singleton.mp mem
  revert group
  decide

/-- A slot of 300 bytes and two bearers of group 1 that need 200 and 50. Their rates of a second
are more than 300, so each gets 150. -/
theorem needs_unmet : ∃ (ue : UeBearers) (tbs : Nat),
    ¬ HonoursRates quarter ue.toUeLcgMap tbs (assignBytesToDlLC quarter ue.toUeLcgMap tbs) := by
  let lc : NrMacSchedulerLC := ⟨200, 0, 0, .gbr, 8000000⟩
  let lc' : NrMacSchedulerLC := ⟨50, 0, 0, .gbr, 8000000⟩
  refine ⟨⟨⟨[(1, ⟨[(3, lc), (4, lc')], by decide⟩)], by decide⟩, by decide⟩, 300, ?_⟩
  intro honours
  have met := honours.guaranteed (by decide) ⟨1, 3, lc⟩ (by decide)
  revert met
  decide

end

end NrMacSchedulerLcQos

end Ns3.Nr
