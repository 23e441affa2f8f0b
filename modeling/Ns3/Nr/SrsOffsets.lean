import Mathlib.Data.List.Perm.Subperm
import Ns3.Nr.SchedulerSrs

/-!
# Unique SRS offsets

The offsets in use and the free ones are together the numbers below the
periodicity, each once.
-/

namespace Ns3.Nr

open List Option

theorem swap_perm {values : List Nat} {i j : Nat} (hi : i < values.length)
    (hj : j < values.length) : (swap values i j).Perm values := by
  unfold swap
  simp only [getD_eq_getElem?_getD, getElem?_eq_getElem hi, getElem?_eq_getElem hj]
  exact set_set_perm hi hj

theorem shuffle_perm (draws : Draws) (i : Nat) (values : List Nat) (h : i < values.length) :
    (shuffle draws i values).Perm values := by
  induction i generalizing values with
  | zero => exact List.Perm.refl _
  | succ i ih =>
    have drawn := draws.within (i + 1)
    have swapped := swap_perm h (lt_of_le_of_lt drawn h)
    have shorter : i < (swap values (i + 1) (draws.value (i + 1))).length := by
      rw [swapped.length_eq]
      omega
    exact (ih _ shorter).trans swapped

theorem standard_pos {p : Nat} (standard : p ∈ standardPeriodicity) : 0 < p := by
  revert p
  decide

namespace NrMacSchedulerSrsDefault

/-- All offsets below the periodicity are free. -/
structure Fresh (srs : NrMacSchedulerSrsDefault) (p : Nat) : Prop where
  standard : p ∈ standardPeriodicity
  periodicity : srs.periodicity = p
  free : srs.availableOffsetValues.Perm (List.range p)

theorem setStartingPeriodicity_fresh {srs srs' : NrMacSchedulerSrsDefault} {draws : Draws}
    {start : Nat} (h : srs.setStartingPeriodicity draws start = some srs') :
    srs'.Fresh start := by
  unfold setStartingPeriodicity at h
  by_cases empty : srs.availableOffsetValues ≠ []
  · rw [if_pos empty] at h
    cases h
  by_cases standard : start ∉ standardPeriodicity
  · rw [if_neg empty, if_pos standard] at h
    cases h
  rw [if_neg empty, if_neg standard] at h
  cases h
  have positive := standard_pos (not_not.mp standard)
  refine ⟨not_not.mp standard, rfl, shuffle_perm _ _ _ ?_⟩
  rw [length_range]
  omega

theorem addUe_cases (srs : NrMacSchedulerSrsDefault) :
    (srs.availableOffsetValues = [] ∧ srs.addUe = (srs, {})) ∨
    ∃ rest offset, srs.availableOffsetValues = rest ++ [offset] ∧
      srs.addUe = (⟨srs.periodicity, rest⟩, ⟨true, srs.periodicity, offset⟩) := by
  obtain ⟨p, free⟩ := srs
  rcases eq_nil_or_concat free with rfl | ⟨rest, offset, rfl⟩
  · left
    exact ⟨rfl, rfl⟩
  · right
    refine ⟨rest, offset, concat_eq_append .., ?_⟩
    simp [addUe]

/-- The reassignment gives each UE an offset of its own. -/
theorem reassignSrsValue_spec (srs : NrMacSchedulerSrsDefault) (ueMap : UeMap)
    (enough : ueMap.length ≤ srs.availableOffsetValues.length) :
    (srs.reassignSrsValue ueMap).1.periodicity = srs.periodicity ∧
    (srs.reassignSrsValue ueMap).2.map Prod.fst = ueMap.map Prod.fst ∧
    (∀ ue ∈ (srs.reassignSrsValue ueMap).2, ue.2.srsPeriodicity = srs.periodicity) ∧
    ((srs.reassignSrsValue ueMap).2.map (·.2.srsOffset) ++
      (srs.reassignSrsValue ueMap).1.availableOffsetValues).Perm srs.availableOffsetValues := by
  induction ueMap generalizing srs with
  | nil => exact ⟨rfl, rfl, nofun, List.Perm.refl _⟩
  | cons ue ueMap ih =>
    rcases srs.addUe_cases with ⟨none_left, -⟩ | ⟨rest, offset, free, added⟩
    · rw [none_left] at enough
      cases enough
    have fewer : ueMap.length ≤ rest.length := by
      rw [free, length_append] at enough
      exact Nat.le_of_succ_le_succ enough
    obtain ⟨same, keys, shared, parts⟩ := ih ⟨srs.periodicity, rest⟩ fewer
    simp only [reassignSrsValue, added]
    refine ⟨same, congrArg (ue.1 :: ·) keys, ?_, ?_⟩
    · rintro other (_ | ⟨_, later⟩)
      · rfl
      · exact shared other later
    · rw [free]
      exact (List.Perm.cons offset parts).trans (perm_append_singleton offset rest).symm

theorem changePeriodicity_cases {srs srs' : NrMacSchedulerSrsDefault} {draws : Draws}
    {found : Option Nat} {ueMap ueMap' : UeMap} {done : Bool}
    (h : srs.changePeriodicity draws found ueMap = some (srs', ueMap', done)) :
    (found = none ∧ srs' = ⟨srs.periodicity, []⟩ ∧ ueMap' = ueMap ∧ done = false) ∨
    ∃ p started, found = some p ∧ Fresh started p ∧
      (srs', ueMap') = started.reassignSrsValue ueMap ∧ done = true := by
  cases found with
  | none =>
    cases h
    exact .inl ⟨rfl, rfl, rfl, rfl⟩
  | some p =>
    simp only [changePeriodicity, bind_eq_bind, bind_eq_some_iff] at h
    obtain ⟨started, set, here⟩ := h
    refine .inr ⟨p, started, rfl, setStartingPeriodicity_fresh set, ?_⟩
    cases here
    exact ⟨rfl, rfl⟩

end NrMacSchedulerSrsDefault

namespace SrsScheduler

/-- The offsets in use and the free ones partition the numbers below the
periodicity. -/
structure Partitions (s : SrsScheduler) : Prop where
  keys : (s.ueMap.map Prod.fst).Nodup
  standard : s.schedulerSrs.periodicity ∈ standardPeriodicity
  share : ∀ ue ∈ s.ueMap, ue.2.srsPeriodicity = s.schedulerSrs.periodicity
  offsets : (s.ueMap.map (·.2.srsOffset) ++ s.schedulerSrs.availableOffsetValues).Perm
    (List.range s.schedulerSrs.periodicity)

variable {s s' : SrsScheduler}

theorem Started.partitions (h : s.Started) : s.Partitions := by
  obtain ⟨ueMap, srs⟩ := s
  obtain ⟨rfl, draws, start, set⟩ := h
  have fresh := NrMacSchedulerSrsDefault.setStartingPeriodicity_fresh set
  refine ⟨nodup_nil, ?_, nofun, ?_⟩
  · rw [fresh.periodicity]
    exact fresh.standard
  · rw [fresh.periodicity]
    exact fresh.free

theorem Partitions.length_le (parts : s.Partitions) :
    s.ueMap.length + s.schedulerSrs.availableOffsetValues.length = s.schedulerSrs.periodicity := by
  have total := parts.offsets.length_eq
  rwa [length_append, length_map, length_range] at total

variable {p rnti : Nat} {order : UeMap} {draws : Draws}

/-- What a reassignment over a fresh set of offsets leaves. -/
theorem Fresh.partitions {started : NrMacSchedulerSrsDefault} (fresh : started.Fresh p)
    (keys : (order.map Prod.fst).Nodup) (enough : order.length ≤ p) :
    Partitions ⟨(started.reassignSrsValue order).2, (started.reassignSrsValue order).1⟩ := by
  have available : order.length ≤ started.availableOffsetValues.length := by
    rwa [fresh.free.length_eq, length_range]
  obtain ⟨same, sameKeys, shared, parts⟩ := started.reassignSrsValue_spec order available
  refine ⟨?_, ?_, ?_, ?_⟩
  · rwa [sameKeys]
  · rw [same, fresh.periodicity]
    exact fresh.standard
  · intro ue mem
    rw [same]
    exact shared ue mem
  · rw [same, fresh.periodicity]
    exact parts.trans fresh.free

theorem changePeriodicity_partitions {srs srs' : NrMacSchedulerSrsDefault} {found : Option Nat}
    {ueMap' : UeMap} {done : Bool}
    (h : srs.changePeriodicity draws found order = some (srs', ueMap', done))
    (keys : (order.map Prod.fst).Nodup) (some_found : found ≠ none)
    (enough : ∀ p, found = some p → order.length ≤ p) : Partitions ⟨ueMap', srs'⟩ := by
  rcases NrMacSchedulerSrsDefault.changePeriodicity_cases h with
    ⟨missing, -⟩ | ⟨p, started, is_found, fresh, pair, -⟩
  · exact absurd missing some_found
  · obtain ⟨rfl, rfl⟩ := Prod.mk.inj pair
    exact Fresh.partitions fresh keys (enough p is_found)

theorem find_larger (standard : p ∈ standardPeriodicity) (smaller : p ≠ 2560) :
    standardPeriodicity.find? (p < ·) ≠ none := by
  revert p
  decide

theorem larger_of_find {q : Nat} (found : standardPeriodicity.find? (p < ·) = some q) : p < q := by
  have above := find?_some found
  exact of_decide_eq_true above

theorem find_itself (standard : p ∈ standardPeriodicity) :
    standardPeriodicity.find? (p ≤ ·) = some p := by
  revert p
  decide

/-- No growth beyond the largest standard periodicity. -/
def Grows (s : SrsScheduler) : SrsEvent → Prop
  | .ueConfig rnti _ _ _ => s.find rnti = none → s.schedulerSrs.availableOffsetValues = [] →
      s.schedulerSrs.periodicity ≠ 2560
  | .increase _ _ => s.schedulerSrs.periodicity ≠ 2560
  | .ueRelease _ | .decrease _ _ => True

theorem Partitions.perm (parts : s.Partitions) {ueMap : UeMap} (perm : ueMap.Perm s.ueMap) :
    Partitions ⟨ueMap, s.schedulerSrs⟩ := by
  refine ⟨?_, parts.standard, ?_, ?_⟩
  · exact (perm.map Prod.fst).nodup_iff.mpr parts.keys
  · intro ue mem
    exact parts.share ue (perm.mem_iff.mp mem)
  · exact ((perm.map _).append_right _).trans parts.offsets

theorem find_none (h : s.find rnti = none) (ue : Nat × NrMacSchedulerUeInfo) (mem : ue ∈ s.ueMap) :
    ue.1 ≠ rnti := by
  have differs := lookup_eq_none_iff.mp h ue mem
  intro same
  simp [same] at differs

section

variable (parts : s.Partitions)
include parts

/-- The released offset goes from the UE to the free ones. -/
theorem Partitions.release (h : s.doCschedUeReleaseReq rnti = some s') : s'.Partitions := by
  unfold doCschedUeReleaseReq find at h
  cases found : s.ueMap.lookup rnti with
  | none =>
    rw [found] at h
    cases h
  | some ue =>
    rw [found] at h
    cases h
    obtain ⟨before, after, ueMap, -⟩ := lookup_eq_some_iff.mp found
    have keys := parts.keys
    rw [ueMap, map_append, map_cons] at keys
    have others : s.ueMap.filter (·.1 ≠ rnti) = before ++ after := by
      have kept : ∀ other ∈ before ++ after, other.1 ≠ rnti := by
        intro other mem same
        have fresh := (nodup_middle.mp keys).notMem
        rw [← map_append] at fresh
        exact fresh (List.mem_map.mpr ⟨other, mem, same⟩)
      rw [ueMap, filter_append, filter_cons_of_neg (by simp), ← filter_append, filter_eq_self]
      intro other mem
      exact decide_eq_true (kept other mem)
    have middle : s.ueMap.Perm ((rnti, ue) :: (before ++ after)) := by
      rw [ueMap]
      exact perm_middle
    refine ⟨?_, parts.standard, ?_, ?_⟩
    · rw [others, map_append]
      exact (nodup_middle.mp keys).of_cons
    · intro other mem
      exact parts.share other (mem_of_mem_filter mem)
    · have returned : ((before ++ after).map (·.2.srsOffset) ++
          (s.schedulerSrs.availableOffsetValues ++ [ue.srsOffset])).Perm
          (((rnti, ue) :: (before ++ after)).map (·.2.srsOffset) ++
            s.schedulerSrs.availableOffsetValues) := by
        rw [← append_assoc]
        exact perm_append_singleton _ _
      rw [others]
      exact returned.trans (((middle.map _).symm.append_right _).trans parts.offsets)

theorem Partitions.admit {rest : List Nat} {offset : Nat}
    (free : s.schedulerSrs.availableOffsetValues = rest ++ [offset])
    {ue : Nat × NrMacSchedulerUeInfo} (unknown : ∀ other ∈ s.ueMap, other.1 ≠ ue.1)
    (periodicity : ue.2.srsPeriodicity = s.schedulerSrs.periodicity)
    (takes : ue.2.srsOffset = offset) :
    Partitions ⟨ue :: s.ueMap, ⟨s.schedulerSrs.periodicity, rest⟩⟩ := by
  refine ⟨?_, parts.standard, ?_, ?_⟩
  · rw [map_cons, nodup_cons]
    refine ⟨?_, parts.keys⟩
    intro mem
    obtain ⟨other, known, same⟩ := List.mem_map.mp mem
    exact unknown other known same
  · rintro other (_ | ⟨_, known⟩)
    · exact periodicity
    · exact parts.share other known
  · refine List.Perm.trans ?_ parts.offsets
    rw [free, map_cons, takes, cons_append, ← append_assoc]
    exact (perm_append_singleton _ _).symm

theorem Partitions.changeBeam (rnti : Nat) (beamConfId : Nat × Nat) :
    Partitions { s with ueMap := s.ueMap.map fun ue =>
      if ue.1 = rnti then (ue.1, { ue.2 with beamConfId }) else ue } := by
  generalize change_eq : (fun ue : Nat × NrMacSchedulerUeInfo =>
    if ue.1 = rnti then (ue.1, { ue.2 with beamConfId }) else ue) = change
  have kept : ∀ ue, (change ue).1 = ue.1 ∧ (change ue).2.srsOffset = ue.2.srsOffset ∧
      (change ue).2.srsPeriodicity = ue.2.srsPeriodicity := by
    intro ue
    rw [← change_eq]
    by_cases named : ue.1 = rnti
    · simp only [if_pos named, and_self]
    · simp [if_neg named]
  refine ⟨?_, parts.standard, ?_, ?_⟩
  · rw [List.map_map]
    exact (map_congr_left fun ue _ => (kept ue).1) ▸ parts.keys
  · intro ue mem
    obtain ⟨before, known, rfl⟩ := List.mem_map.mp mem
    rw [(kept before).2.2]
    exact parts.share before known
  · rw [List.map_map]
    exact (map_congr_left fun ue _ => (kept ue).2.1) ▸ parts.offsets

theorem Partitions.config {beamConfId : Nat × Nat}
    (grows : s.Grows (.ueConfig rnti beamConfId order draws))
    (h : s.doCschedUeConfigReq rnti beamConfId order draws = some s') : s'.Partitions := by
  unfold doCschedUeConfigReq at h
  cases found : s.find rnti with
  | some ue =>
    rw [found] at h
    cases h
    exact parts.changeBeam rnti beamConfId
  | none =>
    rw [found] at h
    by_cases perm : order.Perm ((rnti, { rnti, beamConfId }) :: s.ueMap)
    case neg =>
      simp only [if_neg perm] at h
      cases h
    simp only [if_pos perm] at h
    have unknown := find_none found
    rcases s.schedulerSrs.addUe_cases with ⟨none_left, added⟩ | ⟨rest, offset, free, added⟩
    · simp only [added, Bool.false_eq_true, if_false, bind_eq_bind, bind_eq_some_iff] at h
      obtain ⟨⟨srs, ueMap, done⟩, changed, here⟩ := h
      cases here
      have larger := find_larger parts.standard (grows found none_left)
      refine changePeriodicity_partitions changed ?_ larger ?_
      · refine (perm.map Prod.fst).nodup_iff.mpr (nodup_cons.mpr ⟨?_, parts.keys⟩)
        intro mem
        obtain ⟨ue, known, same⟩ := List.mem_map.mp mem
        exact unknown ue known same
      · intro p found
        have count := parts.length_le
        have above := larger_of_find found
        rw [none_left, length_nil] at count
        rw [perm.length_eq, length_cons]
        omega
    · simp only [added] at h
      cases h
      let ue : NrMacSchedulerUeInfo := ⟨rnti, beamConfId, s.schedulerSrs.periodicity, offset⟩
      have admitted : Partitions ⟨(rnti, ue) :: s.ueMap, ⟨_, rest⟩⟩ :=
        parts.admit free unknown rfl rfl
      refine admitted.perm ((perm.map _).trans ?_)
      rw [map_cons, if_pos rfl, map_congr_left (g := id), List.map_id]
      intro ue known
      exact if_neg (unknown ue known)

theorem Partitions.change {found : Option Nat} {ueMap : UeMap}
    {srs : NrMacSchedulerSrsDefault} {done : Bool} (perm : order.Perm s.ueMap)
    (h : s.schedulerSrs.changePeriodicity draws found order = some (srs, ueMap, done))
    (some_found : found ≠ none) (larger : ∀ p, found = some p → s.schedulerSrs.periodicity ≤ p) :
    Partitions ⟨ueMap, srs⟩ := by
  have keys := (perm.map Prod.fst).nodup_iff.mpr parts.keys
  refine changePeriodicity_partitions h keys some_found ?_
  intro p found
  have count := parts.length_le
  have above := larger p found
  rw [perm.length_eq]
  omega

theorem Partitions.step {e : SrsEvent} (grows : s.Grows e)
    (h : s.step e = some s') : s'.Partitions := by
  cases e with
  | ueConfig rnti beamConfId order draws => exact parts.config grows h
  | ueRelease rnti => exact parts.release h
  | increase order draws =>
    by_cases perm : order.Perm s.ueMap
    · simp only [SrsScheduler.step, if_pos perm, bind_eq_bind, bind_eq_some_iff] at h
      obtain ⟨⟨srs, ueMap, done⟩, changed, here⟩ := h
      cases here
      refine parts.change perm changed (find_larger parts.standard grows) ?_
      intro p found
      exact le_of_lt (larger_of_find found)
    · simp only [SrsScheduler.step, if_neg perm] at h
      cases h
  | decrease order draws =>
    by_cases perm : order.Perm s.ueMap
    · simp only [SrsScheduler.step, if_pos perm, bind_eq_bind, bind_eq_some_iff] at h
      obtain ⟨⟨srs, ueMap, done⟩, changed, here⟩ := h
      cases here
      have same := find_itself parts.standard
      refine parts.change perm changed ?_ ?_
      · rw [same]
        exact some_ne_none _
      · intro p found
        rw [same] at found
        cases found
        exact le_rfl
    · simp only [SrsScheduler.step, if_neg perm] at h
      cases h

end

/-- What holds of the offsets whenever no event is being handled. -/
structure UniqueOffsets (s : SrsScheduler) : Prop where
  share : ∀ ue ∈ s.ueMap, ue.2.srsPeriodicity = s.schedulerSrs.periodicity
  distinct : (s.ueMap.map (·.2.srsOffset)).Nodup
  below : ∀ ue ∈ s.ueMap, ue.2.srsOffset < s.schedulerSrs.periodicity
  free_once : s.schedulerSrs.availableOffsetValues.Nodup
  free_iff : ∀ offset, offset ∈ s.schedulerSrs.availableOffsetValues ↔
    offset < s.schedulerSrs.periodicity ∧ ∀ ue ∈ s.ueMap, ue.2.srsOffset ≠ offset
  one_in_slot : ∀ srsSlotCounter, (s.srsUes srsSlotCounter).length ≤ 1

theorem srsUes_length (distinct : (s.ueMap.map (·.2.srsOffset)).Nodup) (srsSlotCounter : Nat) :
    (s.srsUes srsSlotCounter).length ≤ 1 := by
  obtain ⟨ueMap, srs⟩ := s
  cases ueMap with
  | nil => exact Nat.zero_le 1
  | cons first others =>
    have once := nodup_iff_count_le_one.mp distinct (srsSlotCounter % first.2.srsPeriodicity)
    rw [List.count, countP_map, countP_eq_length_filter] at once
    refine le_trans (le_of_eq (congrArg List.length (filter_congr ?_))) once
    intro ue _
    exact (beq_eq_decide _ _).symm

theorem Partitions.unique (parts : s.Partitions) : s.UniqueOffsets := by
  have all := parts.offsets.nodup_iff.mpr nodup_range
  obtain ⟨distinct, free_once, apart⟩ := nodup_append.mp all
  have known : ∀ offset, (offset ∈ s.ueMap.map (·.2.srsOffset) ∨
      offset ∈ s.schedulerSrs.availableOffsetValues) ↔ offset < s.schedulerSrs.periodicity := by
    intro offset
    rw [← mem_append, parts.offsets.mem_iff, mem_range]
  refine ⟨parts.share, distinct, ?_, free_once, ?_, srsUes_length distinct⟩
  · intro ue mem
    exact (known _).mp (.inl (List.mem_map_of_mem mem))
  · intro offset
    constructor
    · intro free
      refine ⟨(known _).mp (.inr free), ?_⟩
      intro ue mem same
      exact apart _ (List.mem_map_of_mem mem) _ free same
    · rintro ⟨below, unused⟩
      rcases (known offset).mpr below with used | free
      · obtain ⟨ue, mem, same⟩ := List.mem_map.mp used
        exact absurd same (unused ue mem)
      · exact free

/-- **Unique SRS offsets.** Unless the periodicity has to grow beyond the
largest standard one, every arrival, release and change of the periodicity
leaves the UEs with one periodicity and an offset each, and the others free. -/
theorem offsets_unique
    (reaches : Machine.Reaches SrsScheduler.step SrsScheduler.Grows SrsScheduler.Started s) :
    s.UniqueOffsets := by
  refine Partitions.unique (reaches.invariant Partitions ?_ ?_)
  · intro s started
    exact started.partitions
  · intro s e s' parts grows here
    exact parts.step grows here

/-- No draw moves anything but the first element. -/
def zeroDraws : Draws := ⟨fun _ => 0, fun i => Nat.zero_le i⟩

/-- Three UEs arrive over a periodicity of two, which grows to four. -/
theorem grown_offsets_unique : ∃ s : SrsScheduler, s.ueMap.map Prod.fst = [3, 2, 1] ∧
    s.schedulerSrs.periodicity = 4 ∧ s.UniqueOffsets := by
  let ue (rnti p offset : Nat) : Nat × NrMacSchedulerUeInfo := (rnti, ⟨rnti, (0, 0), p, offset⟩)
  have none_yet : Machine.Reaches SrsScheduler.step Grows Started ⟨[], ⟨2, [1, 0]⟩⟩ :=
    .start ⟨rfl, zeroDraws, 2, rfl⟩
  have one : Machine.Reaches SrsScheduler.step Grows Started ⟨[ue 1 2 0], ⟨2, [1]⟩⟩ :=
    none_yet.next (e := .ueConfig 1 (0, 0) [ue 1 0 0] zeroDraws) (fun _ _ => by decide) rfl
  have two : Machine.Reaches SrsScheduler.step Grows Started ⟨[ue 2 2 1, ue 1 2 0], ⟨2, []⟩⟩ :=
    one.next (e := .ueConfig 2 (0, 0) [ue 2 0 0, ue 1 2 0] zeroDraws) (fun _ _ => by decide) rfl
  have three : Machine.Reaches SrsScheduler.step Grows Started
      ⟨[ue 3 4 0, ue 2 4 3, ue 1 4 2], ⟨4, [1]⟩⟩ :=
    two.next (e := .ueConfig 3 (0, 0) [ue 3 0 0, ue 2 2 1, ue 1 2 0] zeroDraws)
      (fun _ _ => by decide) rfl
  exact ⟨_, rfl, rfl, offsets_unique three⟩

/-- At the largest periodicity `IncreasePeriodicity` drops the free offsets
before it finds no larger one. -/
theorem offsets_lost : ¬ ∀ s : SrsScheduler,
    Machine.Reaches SrsScheduler.step (fun _ _ => True) Started s → s.UniqueOffsets := by
  intro unique
  have set : NrMacSchedulerSrsDefault.create.setStartingPeriodicity zeroDraws 2560 =
      some ⟨2560, shuffle zeroDraws 2559 (List.range 2560)⟩ := by
    rfl
  have started : Machine.Reaches SrsScheduler.step (fun _ _ => True) Started ⟨[], ⟨2560, _⟩⟩ :=
    .start ⟨rfl, zeroDraws, 2560, set⟩
  have increased : Machine.Reaches SrsScheduler.step (fun _ _ => True) Started ⟨[], ⟨2560, []⟩⟩ :=
    started.next (e := .increase [] zeroDraws) trivial rfl
  have free := ((unique _ increased).free_iff 0).mpr ⟨by decide, nofun⟩
  cases free

end SrsScheduler

end Ns3.Nr
