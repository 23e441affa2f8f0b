import Ns3.Nr.SchedulerLcg

/-!
# The logical channels of a UE and what is assigned to them

The map of the groups of a UE in the order of its iteration, and `NrMacSchedulerLcRR`,
which shares a transport block among the channels.
-/

namespace Ns3.Nr

open List

/-- The groups of a UE. -/
structure UeLcgMap where
  groups : List (UInt8 × NrMacSchedulerLCG)
  keys : (groups.map Prod.fst).Nodup

/-- `NrMacSchedulerLcAlgorithm::Assignation` -/
structure Assignation where
  lcg : UInt8
  lcId : UInt8
  bytes : Nat
  deriving DecidableEq

/-- The bytes of all the assignments. -/
def totalBytes (ret : List Assignation) : Nat := (ret.map Assignation.bytes).sum

/-- The bytes that a channel of a group gets. -/
def bytesFor (ret : List Assignation) (lcg lcId : UInt8) : Nat :=
  totalBytes (ret.filter fun a => a.lcg = lcg ∧ a.lcId = lcId)

@[simp]
theorem totalBytes_nil : totalBytes [] = 0 := rfl

@[simp]
theorem totalBytes_cons (a : Assignation) (ret : List Assignation) :
    totalBytes (a :: ret) = a.bytes + totalBytes ret := by simp [totalBytes]

@[simp]
theorem totalBytes_append (ret ret' : List Assignation) :
    totalBytes (ret ++ ret') = totalBytes ret + totalBytes ret' := by simp [totalBytes]

@[simp]
theorem bytesFor_nil (lcg lcId : UInt8) : bytesFor [] lcg lcId = 0 := rfl

@[simp]
theorem bytesFor_cons (a : Assignation) (ret : List Assignation) (lcg lcId : UInt8) :
    bytesFor (a :: ret) lcg lcId =
      (if a.lcg = lcg ∧ a.lcId = lcId then a.bytes else 0) + bytesFor ret lcg lcId := by
  unfold bytesFor
  by_cases here : a.lcg = lcg ∧ a.lcId = lcId <;> simp [here]

@[simp]
theorem bytesFor_append (ret ret' : List Assignation) (lcg lcId : UInt8) :
    bytesFor (ret ++ ret') lcg lcId = bytesFor ret lcg lcId + bytesFor ret' lcg lcId := by
  simp [bytesFor]

namespace UeLcgMap

variable (ueLCG : UeLcgMap)

/-- A channel with its group. -/
structure Channel where
  lcg : UInt8
  lcId : UInt8
  lc : NrMacSchedulerLC
  deriving DecidableEq

/-- The channels in the order of both loops. -/
def channels : List Channel :=
  ueLCG.groups.flatMap fun (lcg, group) => group.lcMap.map fun (lcId, lc) => ⟨lcg, lcId, lc⟩

/-- The channel has data. -/
def Channel.Pending (c : Channel) : Prop := 0 < c.lc.getTotalSize

instance (c : Channel) : Decidable c.Pending := inferInstanceAs (Decidable (0 < _))

/-- No two channels have the same group and identifier. -/
theorem channels_nodup : (ueLCG.channels.map fun c => (c.lcg, c.lcId)).Nodup := by
  have names : ueLCG.channels.map (fun c => (c.lcg, c.lcId)) =
      ueLCG.groups.flatMap fun g => g.2.getLCId.map fun lcId => (g.1, lcId) := by
    unfold channels NrMacSchedulerLCG.getLCId
    simp only [map_flatMap, map_map]
    rfl
  rw [names, nodup_flatMap]
  constructor
  · intro g _
    apply List.Nodup.map _ g.2.keys
    intro a b same
    exact (Prod.mk.inj same).2
  · apply (pairwise_map.mp ueLCG.keys).imp
    intro g g' differ c mem mem'
    obtain ⟨_, _, rfl⟩ := mem_map.mp mem
    obtain ⟨_, _, same⟩ := mem_map.mp mem'
    exact differ (Prod.mk.inj same).1.symm

end UeLcgMap

/-! ## `NrMacSchedulerLcRR` -/

namespace NrMacSchedulerLcRR

open UeLcgMap

/-- The second loop: only the first channel gets an assignment. -/
def emplaceOnce (amountPerLC : Nat) : (allocatedBytes : Bool) → List Channel → List Assignation
  | _, [] => []
  | allocatedBytes, c :: rest =>
    if allocatedBytes = false then
      ⟨c.lcg, c.lcId, amountPerLC⟩ :: emplaceOnce amountPerLC true rest
    else emplaceOnce amountPerLC allocatedBytes rest

/-- The first loop counts every channel. -/
def assignBytesToLC (ueLCG : UeLcgMap) (tbs : Nat) : List Assignation :=
  let activeLc := ueLCG.channels.length
  if activeLc = 0 then []
  else emplaceOnce (tbs / activeLc) false ueLCG.channels

theorem emplaceOnce_true (amountPerLC : Nat) (cs : List Channel) :
    emplaceOnce amountPerLC true cs = [] := by
  induction cs with
  | nil => rfl
  | cons c rest ih => exact ih

/-- Only the first channel gets bytes, as if there were as many more like it. -/
theorem assignBytesToLC_eq (ueLCG : UeLcgMap) (tbs : Nat) : assignBytesToLC ueLCG tbs =
    match ueLCG.channels with
    | [] => []
    | c :: rest => [⟨c.lcg, c.lcId, tbs / (rest.length + 1)⟩] := by
  unfold assignBytesToLC
  cases ueLCG.channels with
  | nil => rfl
  | cons c rest =>
    rw [if_neg (by simp), emplaceOnce, if_pos rfl, emplaceOnce_true]
    rfl

/-- An even split of a transport block among the channels with data. -/
structure SplitsEvenly (ueLCG : UeLcgMap) (tbs : Nat) (ret : List Assignation) : Prop where
  pending : ∀ a ∈ ret, a.bytes ≠ 0 →
    ∃ c ∈ ueLCG.channels, c.Pending ∧ c.lcg = a.lcg ∧ c.lcId = a.lcId
  same : ∃ share, ∀ c ∈ ueLCG.channels, c.Pending → bytesFor ret c.lcg c.lcId = share
  most : totalBytes ret ≤ tbs
  least : (∃ c ∈ ueLCG.channels, c.Pending) →
    tbs < totalBytes ret + (ueLCG.channels.filter fun c => c.Pending).length

/-- When the split is even all the same: one channel, or fewer bytes than channels. -/
def Splittable (ueLCG : UeLcgMap) (tbs : Nat) : Prop :=
  ueLCG.channels = [] ∨ (∃ c, ueLCG.channels = [c] ∧ c.Pending) ∨
    tbs < ueLCG.channels.length ∧ ((∀ c ∈ ueLCG.channels, ¬ c.Pending) ∨
      tbs < (ueLCG.channels.filter fun c => c.Pending).length)

theorem pending_least {cs : List Channel} {c : Channel} (first : c ∈ cs) (pending : c.Pending) :
    0 < (cs.filter fun c => c.Pending).length :=
  length_pos_of_mem (mem_filter.mpr ⟨first, decide_eq_true pending⟩)

/-- **The split.** The split is even exactly for one channel, with data, or for fewer bytes than
channels. -/
theorem splitsEvenly_iff (ueLCG : UeLcgMap) (tbs : Nat) :
    SplitsEvenly ueLCG tbs (assignBytesToLC ueLCG tbs) ↔ Splittable ueLCG tbs := by
  have nodup := ueLCG.channels_nodup
  have ret := assignBytesToLC_eq ueLCG tbs
  cases channels : ueLCG.channels with
  | nil =>
    rw [channels] at ret
    rw [ret]
    refine ⟨fun _ => .inl channels, fun _ => ⟨nofun, ⟨0, fun _ _ _ => rfl⟩, Nat.zero_le _, ?_⟩⟩
    rintro ⟨c, mem, -⟩
    rw [channels] at mem
    cases mem
  | cons c rest =>
    rw [channels] at ret nodup
    have amount : totalBytes (assignBytesToLC ueLCG tbs) = tbs / (rest.length + 1) := by
      rw [ret]
      simp
    have other : ∀ d ∈ rest, bytesFor (assignBytesToLC ueLCG tbs) d.lcg d.lcId = 0 := by
      intro d mem
      have differ : ¬ (c.lcg = d.lcg ∧ c.lcId = d.lcId) := by
        rintro ⟨same, same'⟩
        rw [map_cons, nodup_cons] at nodup
        exact nodup.1 (mem_map.mpr ⟨d, mem, by rw [same, same']⟩)
      rw [ret]
      simp [differ]
    have own : bytesFor (assignBytesToLC ueLCG tbs) c.lcg c.lcId = tbs / (rest.length + 1) := by
      rw [ret]
      simp
    constructor
    · intro even
      by_cases none_ : tbs / (rest.length + 1) = 0
      · have small := (Nat.div_eq_zero_iff_lt (Nat.succ_pos _)).mp none_
        refine .inr (.inr ⟨by rw [channels]; exact small, ?_⟩)
        by_cases some_ : ∃ c ∈ ueLCG.channels, c.Pending
        · have least := even.least some_
          rw [amount, none_, zero_add] at least
          exact .inr least
        · exact .inl fun c mem pending => some_ ⟨c, mem, pending⟩
      · -- The first channel gets bytes, so it is the only one with data.
        obtain ⟨c', mem, pending, same, same'⟩ :=
          even.pending ⟨c.lcg, c.lcId, _⟩ (by rw [ret]; exact mem_cons_self) none_
        obtain ⟨share, shares⟩ := even.same
        have first : c' = c := by
          rw [channels] at mem
          obtain rfl | mem := mem_cons.mp mem
          · rfl
          · have zero := other c' mem
            rw [same, same', own] at zero
            exact absurd zero none_
        subst first
        have idle : ∀ d ∈ rest, ¬ d.Pending := by
          intro d mem' pending'
          have one := shares c' mem pending
          have two := shares d (by rw [channels]; exact mem_cons_of_mem _ mem') pending'
          rw [own] at one
          rw [other d mem'] at two
          omega
        have count : (ueLCG.channels.filter fun c => c.Pending) = [c'] := by
          have none_ : (rest.filter fun c => c.Pending) = [] := by
            apply filter_eq_nil_iff.mpr
            intro d mem' pending'
            exact idle d mem' (of_decide_eq_true pending')
          simp [channels, pending, none_]
        have least := even.least ⟨c', mem, pending⟩
        rw [amount, count, length_singleton] at least
        have rest_nil : rest = [] := by
          cases rest with
          | nil => rfl
          | cons d rest =>
            have half : tbs / ((d :: rest).length + 1) ≤ tbs / 2 :=
              Nat.div_le_div_left (by simp) (by decide)
            have some_ : tbs ≠ 0 := by
              rintro rfl
              exact none_ (Nat.zero_div _)
            omega
        rw [rest_nil] at channels
        exact .inr (.inl ⟨c', channels, pending⟩)
    · rintro (none_ | ⟨d, one, pending⟩ | ⟨small, rest_⟩)
      · rw [channels] at none_
        cases none_
      · obtain ⟨rfl, rfl⟩ : c = d ∧ rest = [] := by
          rw [channels] at one
          exact List.cons.inj one
        rw [length_nil, zero_add, Nat.div_one] at amount own
        refine ⟨?_, ⟨tbs, ?_⟩, by omega, fun _ => ?_⟩
        · rw [ret]
          intro a mem _
          obtain rfl := mem_singleton.mp mem
          exact ⟨c, by rw [one]; exact mem_cons_self, pending, rfl, rfl⟩
        · intro d mem _
          rw [one] at mem
          obtain rfl := mem_singleton.mp mem
          exact own
        · have some_ : 0 < (ueLCG.channels.filter fun c => c.Pending).length :=
            pending_least (by rw [one]; exact mem_cons_self) pending
          omega
      · rw [channels] at small
        have none_ : tbs / (rest.length + 1) = 0 := Nat.div_eq_of_lt small
        simp only [none_] at amount own ret
        refine ⟨?_, ⟨0, ?_⟩, by omega, ?_⟩
        · rw [ret]
          intro a mem some_
          obtain rfl := mem_singleton.mp mem
          exact absurd rfl some_
        · intro d mem _
          rw [channels] at mem
          obtain rfl | mem := mem_cons.mp mem
          · exact own
          · exact other d mem
        · rintro ⟨d, mem, pending⟩
          obtain idle | least := rest_
          · exact absurd pending (idle d mem)
          · rwa [amount, zero_add]

/-- Two channels with data, and only the first gets any of the ten bytes. -/
theorem second_unserved : ∃ (ueLCG : UeLcgMap) (tbs : Nat),
    ¬ SplitsEvenly ueLCG tbs (assignBytesToLC ueLCG tbs) := by
  let lc : NrMacSchedulerLC := ⟨100, 0, 0, .nonGbr, 0⟩
  refine ⟨⟨[(1, ⟨[(3, lc), (4, lc)], by decide⟩)], by decide⟩, 10, ?_⟩
  intro even
  have least := even.least ⟨⟨1, 3, lc⟩, by decide, by decide⟩
  revert least
  decide

end NrMacSchedulerLcRR

end Ns3.Nr
