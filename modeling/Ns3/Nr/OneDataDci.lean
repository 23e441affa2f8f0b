import Ns3.Nr.SlotSchedule

/-!
# One data DCI for a UE

The downlink gives a UE at most one data DCI in a slot. The uplink retransmits every process
that fits, also several ones of a UE.
-/

namespace Ns3.Nr

open List Option

/-- The DCI of a process names the UE of the process, and has a redundancy version. -/
structure OwnDcis (ueMap : UeHarqMap) : Prop where
  dl : ∀ key dci, dlDci ueMap key = some dci → dci.rnti = key.1
  ul : ∀ key dci, ulDci ueMap key = some dci → dci.rnti = key.1 ∧ dci.rv ≠ []

/-! ## Downlink -/

theorem rnti_retransmitStreams {nacks : List Nat} {old streams : DciInfoElementTdma}
    (sent : retransmitStreams nacks old = some streams) : streams.rnti = old.rnti := by
  unfold retransmitStreams at sent
  dsimp only at sent
  split at sent
  · rw [← Option.some.inj sent]
  · cases sent

variable {bandwidthInRbg symPerBeam i : Nat} {feedback : List DlHarqInfo}
  {s s' : HarqRun DlHarqInfo} {active : ActiveHarqMap} {ueMap : UeHarqMap} {infos : List UlHarqInfo}

theorem dataRntis_scheduleDlProcess
    {key : HarqKey}
    {allocatedUe allocatedUe' : List Nat}
    (own : ∀ key dci, dlDci s.ueMap key = some dci → dci.rnti = key.1)
    (done : scheduleDlProcess bandwidthInRbg symPerBeam feedback key s allocatedUe =
      some (s', allocatedUe')) :
    (∀ key dci, dlDci s'.ueMap key = some dci → dci.rnti = key.1) ∧
    ∃ added, allocatedUe' = allocatedUe ++ added ∧
      dataRntis s'.slotAlloc = dataRntis s.slotAlloc ++ added ∧
      (added = [] ∨ added = [key.1] ∧ key.1 ∉ allocatedUe) := by
  simp only [scheduleDlProcess, bind_eq_bind, bind_eq_some_iff] at done
  obtain ⟨ue, foundUe, process, foundProcess, old, element, done⟩ := done
  have present : dlDci s.ueMap key = some old := by simp [dlDci, foundUe, foundProcess, element]
  have rnti := own key old present
  split at done
  · cases done
    refine ⟨?_, [], by simp, by simp, .inl rfl⟩
    intro other dci stored
    rw [dlDci_update s.ueMap key other ue _ foundUe ue.dlMRBRetx] at stored
    split at stored
    · rename_i same
      rw [same, ← rnti, Option.some.inj (element.symm.trans stored)]
    · exact own other dci stored
  · rename_i fits
    obtain ⟨streams, sent, done⟩ := bind_eq_some_iff.mp done
    rw [rnti_retransmitStreams sent, rnti] at done
    by_cases none_ : symPerBeam = 0
    · rw [if_pos none_] at done
      cases done
    · rw [if_neg none_] at done
      generalize (if old.rbgBitmask.count 1 * old.numSym % symPerBeam = 0 then
          old.rbgBitmask.count 1 * old.numSym / symPerBeam
        else old.rbgBitmask.count 1 * old.numSym / symPerBeam + 1) = rbgs at done
      split at done
      · cases done
      · simp only [Function.update_self, Function.update_idem] at done
        cases done
        refine ⟨?_, [key.1], rfl, by simp [dataRntis],
          .inr ⟨rfl, fun mem => fits (.inl (rnti ▸ mem))⟩⟩
        intro other dci stored
        rw [dlDci_update s.ueMap key other ue _ foundUe] at stored
        split at stored
        · rename_i same
          rw [same, ← Option.some.inj stored]
        · exact own other dci stored

/-- The UEs of a beam get a DCI each at most. -/
theorem dataRntis_scheduleDlBeam
    {keys : List HarqKey} {allocatedUe allocatedUe' : List Nat}
    (own : ∀ key dci, dlDci s.ueMap key = some dci → dci.rnti = key.1)
    (done : scheduleDlBeam bandwidthInRbg symPerBeam feedback keys s allocatedUe =
      some (s', allocatedUe')) :
    (∀ key dci, dlDci s'.ueMap key = some dci → dci.rnti = key.1) ∧
    ∃ added, allocatedUe' = allocatedUe ++ added ∧
      dataRntis s'.slotAlloc = dataRntis s.slotAlloc ++ added ∧
      (allocatedUe.Nodup → allocatedUe'.Nodup) ∧ ∀ rnti ∈ added, rnti ∈ keys.map Prod.fst := by
  induction keys generalizing s allocatedUe with
  | nil =>
    cases done
    exact ⟨own, [], by simp, by simp, id, nofun⟩
  | cons key rest ih =>
    simp only [scheduleDlBeam, bind_eq_bind, bind_eq_some_iff] at done
    obtain ⟨⟨next, allocated⟩, first, done⟩ := done
    obtain ⟨own', added, rfl, data, one⟩ := dataRntis_scheduleDlProcess own first
    obtain ⟨own'', more, rfl, data', nodup, inside⟩ := ih own' done
    refine ⟨own'', added ++ more, append_assoc _ _ _, ?_, ?_, ?_⟩
    · rw [data', data, append_assoc]
    · intro before
      apply nodup
      obtain rfl | ⟨rfl, fresh⟩ := one
      · simpa using before
      · rw [nodup_append']
        exact ⟨before, nodup_singleton _, by simpa using fresh⟩
    · intro rnti mem
      obtain mem | mem := mem_append.mp mem
      · obtain rfl | ⟨rfl, -⟩ := one
        · cases mem
        · rw [mem_singleton.mp mem]
          exact mem_cons_self
      · exact mem_cons_of_mem _ (inside rnti mem)

/-- No UE has processes in two beams, so no UE gets two DCIs. -/
theorem dataRntis_scheduleDlBeams {beams : List (List HarqKey)}
    (own : ∀ key dci, dlDci s.ueMap key = some dci → dci.rnti = key.1)
    (apart : beams.Pairwise fun keys keys' => (keys.map Prod.fst).Disjoint (keys'.map Prod.fst))
    (done : scheduleDlBeams bandwidthInRbg symPerBeam feedback beams s = some s') :
    ∃ added, dataRntis s'.slotAlloc = dataRntis s.slotAlloc ++ added ∧ added.Nodup ∧
      ∀ rnti ∈ added, ∃ keys ∈ beams, rnti ∈ keys.map Prod.fst := by
  induction beams generalizing s with
  | nil =>
    cases done
    exact ⟨[], by simp, .nil, nofun⟩
  | cons keys rest ih =>
    simp only [scheduleDlBeams, bind_eq_bind, bind_eq_some_iff] at done
    obtain ⟨⟨next, allocated⟩, first, done⟩ := done
    obtain ⟨own', added, same, data, nodup, inside⟩ := dataRntis_scheduleDlBeam own first
    rw [nil_append] at same
    subst same
    rw [pairwise_cons] at apart
    have later : ∀ moved : HarqRun DlHarqInfo, moved.ueMap = next.ueMap →
        dataRntis moved.slotAlloc = dataRntis next.slotAlloc →
        scheduleDlBeams bandwidthInRbg symPerBeam feedback rest moved = some s' →
        ∃ more, dataRntis s'.slotAlloc = dataRntis s.slotAlloc ++ more ∧ more.Nodup ∧
          ∀ rnti ∈ more, ∃ keys' ∈ keys :: rest, rnti ∈ keys'.map Prod.fst := by
      intro moved sameMap sameData done
      obtain ⟨more, data', nodup', inside'⟩ := ih (sameMap ▸ own') apart.2 done
      refine ⟨allocated ++ more, ?_, ?_, ?_⟩
      · rw [data', sameData, data, append_assoc]
      · rw [nodup_append']
        refine ⟨nodup .nil, nodup', ?_⟩
        intro rnti mem mem'
        obtain ⟨keys', among, mem'⟩ := inside' rnti mem'
        exact apart.1 keys' among (inside rnti mem) mem'
      · intro rnti mem
        obtain mem | mem := mem_append.mp mem
        · exact ⟨keys, mem_cons_self, inside rnti mem⟩
        · obtain ⟨keys', among, mem⟩ := inside' rnti mem
          exact ⟨keys', mem_cons_of_mem _ among, mem⟩
    by_cases none_ : allocated = []
    · rw [if_pos none_] at done
      exact later next rfl rfl done
    · rw [if_neg none_] at done
      exact later _ (by rfl) (by rfl) done

/-- The processes of an entry are of UEs of its beam, and no beam has two entries. -/
structure ByBeam (ueMap : UeHarqMap) (active : ActiveHarqMap) : Prop where
  keys : (active.map Prod.fst).Nodup
  beam : ∀ entry ∈ active, ∀ key ∈ entry.2, ∃ ue, ueMap key.1 = some ue ∧ ue.beamConfId = entry.1

theorem mem_insertActive {beam : Nat × Nat} {key : HarqKey} {entry : (Nat × Nat) × List HarqKey}
    (mem : entry ∈ insertActive beam key active) :
    ∀ key' ∈ entry.2, (entry.1 = beam ∧ key' = key) ∨
      ∃ entry' ∈ active, entry'.1 = entry.1 ∧ key' ∈ entry'.2 := by
  induction active with
  | nil =>
    rw [insertActive, mem_singleton] at mem
    subst mem
    exact fun key' mem' => .inl ⟨rfl, mem_singleton.mp mem'⟩
  | cons first rest ih =>
    unfold insertActive at mem
    split at mem
    · rename_i here
      obtain rfl | mem := mem_cons.mp mem
      · intro key' mem'
        obtain mem' | mem' := mem_append.mp mem'
        · exact .inr ⟨first, mem_cons_self, rfl, mem'⟩
        · exact .inl ⟨here, mem_singleton.mp mem'⟩
      · exact fun key' mem' => .inr ⟨entry, mem_cons_of_mem _ mem, rfl, mem'⟩
    · obtain rfl | mem := mem_cons.mp mem
      · exact fun key' mem' => .inr ⟨entry, mem_cons_self, rfl, mem'⟩
      · intro key' mem'
        apply (ih mem key' mem').imp_right
        rintro ⟨entry', among, same⟩
        exact ⟨entry', mem_cons_of_mem _ among, same⟩

theorem keys_insertActive (beam : Nat × Nat) (key : HarqKey) (nodup : (active.map Prod.fst).Nodup) :
    ((insertActive beam key active).map Prod.fst).Nodup ∧
      ∀ b ∈ (insertActive beam key active).map Prod.fst, b = beam ∨ b ∈ active.map Prod.fst := by
  induction active with
  | nil => simp [insertActive]
  | cons first rest ih =>
    rw [map_cons, nodup_cons] at nodup
    obtain ⟨nodup', inside⟩ := ih nodup.2
    unfold insertActive
    split
    · simp only [map_cons, nodup_cons]
      exact ⟨nodup, fun b mem => .inr mem⟩
    · rename_i other
      simp only [map_cons, nodup_cons, mem_cons]
      refine ⟨⟨fun mem => ?_, nodup'⟩, ?_⟩
      · exact (inside _ mem).elim other nodup.1
      · rintro b (rfl | mem)
        · exact .inr (.inl rfl)
        · exact (inside b mem).imp_right .inr

theorem byBeam_computeActiveHarq {active' : ActiveHarqMap} (byBeam : ByBeam ueMap active)
    (done : computeActiveHarq ueMap feedback active = some active') : ByBeam ueMap active' := by
  induction feedback generalizing active with
  | nil =>
    cases done
    exact byBeam
  | cons info rest ih =>
    simp only [computeActiveHarq, bind_eq_bind, bind_eq_some_iff] at done
    obtain ⟨ue, foundUe, process, -, done⟩ := done
    apply ih ?_ done
    refine ⟨(keys_insertActive _ _ byBeam.keys).1, fun entry mem key mem' => ?_⟩
    obtain ⟨same, rfl⟩ | ⟨entry', among, same, mem''⟩ := mem_insertActive mem key mem'
    · exact ⟨ue, foundUe, same.symm⟩
    · rw [← same]
      exact byBeam.beam entry' among key mem''

theorem ByBeam.arranged {arranged : ActiveHarqMap} (byBeam : ByBeam ueMap active)
    (h : Arranged active arranged) : ByBeam ueMap arranged := by
  obtain ⟨sorted, entries, order⟩ := h
  suffices ByBeam ueMap sorted by
    refine ⟨(order.map Prod.fst).nodup_iff.mpr this.keys, fun entry mem => ?_⟩
    exact this.beam entry (order.mem_iff.mp mem)
  have keys : sorted.map Prod.fst = active.map Prod.fst := by
    clear byBeam order
    induction entries with
    | nil => rfl
    | cons entry _ ih => rw [map_cons, map_cons, entry.1, ih]
  have among : ∀ entry ∈ sorted, ∃ entry' ∈ active, entry.1 = entry'.1 ∧ entry.2.Perm entry'.2 := by
    clear byBeam order keys
    induction entries with
    | nil => exact nofun
    | @cons first first' _ _ entry _ ih =>
      intro other mem
      obtain rfl | mem := mem_cons.mp mem
      · exact ⟨first, mem_cons_self, entry⟩
      · obtain ⟨entry', mem', same⟩ := ih other mem
        exact ⟨entry', mem_cons_of_mem _ mem', same⟩
  refine ⟨keys ▸ byBeam.keys, fun entry mem key mem' => ?_⟩
  obtain ⟨entry', mem'', same, perm⟩ := among entry mem
  rw [same]
  exact byBeam.beam entry' mem'' key (perm.mem_iff.mp mem')

theorem ByBeam.apart (byBeam : ByBeam ueMap active) :
    (active.map Prod.snd).Pairwise fun keys keys' =>
      (keys.map Prod.fst).Disjoint (keys'.map Prod.fst) := by
  rw [pairwise_map]
  apply (pairwise_map.mp byBeam.keys).imp_of_mem
  intro entry entry' mem mem' differ rnti inside inside'
  obtain ⟨key, among, rfl⟩ := List.mem_map.mp inside
  obtain ⟨key', among', same⟩ := List.mem_map.mp inside'
  obtain ⟨ue, found, beam⟩ := byBeam.beam entry mem key among
  obtain ⟨ue', found', beam'⟩ := byBeam.beam entry' mem' key' among'
  rw [same, found] at found'
  cases found'
  exact differ (beam.symm.trans beam')

/-- The downlink: a slot without data DCIs gets at most one for each UE. -/
theorem doScheduleDl_nodup {allocator : DataAllocator} {arranged : ActiveHarqMap}
    {activeDlUe : ActiveUes} (own : OwnDcis s.ueMap)
    (computed : computeActiveHarq s.ueMap feedback [] = some active)
    (order : Arranged active arranged) (valid : activeDlUe.Valid)
    (empty : dataRntis s.slotAlloc = [])
    (done : doScheduleDl allocator bandwidthInRbg arranged activeDlUe feedback s = some s') :
    (dataRntis s'.slotAlloc).Nodup := by
  have byBeam : ByBeam s.ueMap [] := ⟨.nil, nofun⟩
  have apart := ((byBeam_computeActiveHarq byBeam computed).arranged order).apart
  simp only [doScheduleDl, bind_eq_bind, bind_eq_some_iff] at done
  obtain ⟨next, first, done⟩ := done
  cases done
  rw [scheduleNewData_nodup allocator .dl valid]
  unfold retransmitDl at first
  split at first
  · cases first
    rw [empty]
    exact .nil
  · unfold scheduleDlHarq at first
    split at first
    · cases first
    · obtain ⟨added, data, nodup, -⟩ := dataRntis_scheduleDlBeams own.dl apart first
      rw [data, empty]
      exact nodup

/-! ## Uplink -/

/-- The UEs of the feedbacks whose retransmission fits into the symbols left by those before. -/
def retransmitted (ueMap : UeHarqMap) : List UlHarqInfo → Nat → List Nat
  | [], _ => []
  | info :: rest, symAvail =>
    if ulSymbols ueMap info ≤ symAvail then
      info.rnti :: retransmitted ueMap rest (symAvail - ulSymbols ueMap info)
    else retransmitted ueMap rest symAvail

/-- What stays of the DCI of a process when it is sent again. -/
def ulShape (ueMap : UeHarqMap) (key : HarqKey) : Option (Nat × Nat × Bool) :=
  (ulDci ueMap key).map fun dci => (dci.rnti, dci.numSym, dci.rv.isEmpty)

/-- `infos` are the feedbacks that the loop comes to before it ends. -/
structure Ended (ueMap : UeHarqMap) (feedback infos : List UlHarqInfo) (i symAvail : Nat) :
    Prop where
  came : turns feedback infos.length i = some infos
  room : Room (infos.map (ulSymbols ueMap)) symAvail
  stop : symLeft (infos.map (ulSymbols ueMap)) symAvail = 0 ∨
    feedback.length ≤ (i + infos.length) % 2 ^ 16

section
variable {ueMap ueMap' : UeHarqMap} (same : ∀ key, ulShape ueMap' key = ulShape ueMap key)
include same

theorem ulSymbols_shape (info : UlHarqInfo) : ulSymbols ueMap' info = ulSymbols ueMap info := by
  have shape := congrArg (Option.map fun s : Nat × Nat × Bool => s.2.1) (same info.key)
  simp only [ulShape, Option.map_map] at shape
  exact congrArg (Option.getD · 0) shape

theorem ready_shape {info : UlHarqInfo} (ready : info.Ready ueMap) : info.Ready ueMap' := by
  obtain ⟨nack, dci, found, rnti, versions⟩ := ready
  have shape := same info.key
  rw [ulShape, ulShape, found, map_some, map_eq_some_iff] at shape
  obtain ⟨dci', found', shape⟩ := shape
  obtain ⟨rnti', -, empty⟩ := by simpa using shape
  refine ⟨nack, dci', found', rnti'.trans rnti, ?_⟩
  intro none_
  rw [none_, isEmpty_nil] at empty
  exact versions (List.isEmpty_iff.mp empty.symm)

theorem own_shape (own : ∀ key dci, ulDci ueMap key = some dci → dci.rnti = key.1 ∧ dci.rv ≠ []) :
    ∀ key dci, ulDci ueMap' key = some dci → dci.rnti = key.1 ∧ dci.rv ≠ [] := by
  intro key dci' found'
  have shape := same key
  rw [ulShape, found', map_some, eq_comm, ulShape, map_eq_some_iff] at shape
  obtain ⟨dci, found, shape⟩ := shape
  obtain ⟨rnti, -, empty⟩ := by simpa using shape
  obtain ⟨rnti', versions⟩ := own key dci found
  refine ⟨rnti.symm.trans rnti', fun none_ => ?_⟩
  rw [none_, isEmpty_nil] at empty
  exact versions (List.isEmpty_iff.mp empty)

theorem retransmitted_shape (infos : List UlHarqInfo) (symAvail : Nat) :
    retransmitted ueMap' infos symAvail = retransmitted ueMap infos symAvail := by
  induction infos generalizing symAvail with
  | nil => rfl
  | cons info rest ih => simp only [retransmitted, ulSymbols_shape same, ih]

end

theorem ended_shape {ueMap' : UeHarqMap} {feedback : List UlHarqInfo} {symAvail : Nat}
    (same : ∀ key, ulShape ueMap' key = ulShape ueMap key) :
    Ended ueMap' feedback infos i symAvail ↔ Ended ueMap feedback infos i symAvail := by
  have symbols : ulSymbols ueMap' = ulSymbols ueMap := funext (ulSymbols_shape same)
  constructor
  · rintro ⟨came, room, stop⟩
    exact ⟨came, symbols ▸ room, symbols ▸ stop⟩
  · rintro ⟨came, room, stop⟩
    exact ⟨came, symbols.symm ▸ room, symbols.symm ▸ stop⟩

theorem ended_cons {feedback : List UlHarqInfo} {info : UlHarqInfo} {symAvail : Nat}
    (entry : feedback[i]? = some info) (left : 0 < symAvail)
    (ended : Ended ueMap feedback infos ((i + 1) % 2 ^ 16) (leave symAvail (ulSymbols ueMap info))) :
    Ended ueMap feedback (info :: infos) i symAvail := by
  refine ⟨turns_succ entry ended.came, ⟨left, ended.room⟩, ended.stop.imp_right fun past => ?_⟩
  rw [length_cons]
  omega

theorem retransmitted_cons (ueMap : UeHarqMap) (info : UlHarqInfo) (infos : List UlHarqInfo)
    (symAvail : Nat) : retransmitted ueMap (info :: infos) symAvail =
      (if ulSymbols ueMap info ≤ symAvail then [info.rnti] else []) ++
        retransmitted ueMap infos (leave symAvail (ulSymbols ueMap info)) := by
  rw [retransmitted, leave]
  split <;> simp

/-- One feedback: the retransmission comes first in the slot, if it fits. -/
theorem dataRntis_scheduleUlFeedback {info : UlHarqInfo} {s s' : HarqRun UlHarqInfo}
    (own : ∀ key dci, ulDci s.ueMap key = some dci → dci.rnti = key.1 ∧ dci.rv ≠ [])
    (done : scheduleUlFeedback bandwidthInRbg info s = some s') :
    info.Ready s.ueMap ∧ (∀ key, ulShape s'.ueMap key = ulShape s.ueMap key) ∧
      s'.symAvail = leave s.symAvail (ulSymbols s.ueMap info) ∧
      dataRntis s'.slotAlloc = (if ulSymbols s.ueMap info ≤ s.symAvail then [info.rnti] else []) ++
          dataRntis s.slotAlloc := by
  unfold scheduleUlFeedback at done
  split at done
  · cases done
  · rename_i nack
    simp only [bind_eq_bind, bind_eq_some_iff] at done
    obtain ⟨ue, foundUe, process, foundProcess, old, element, done⟩ := done
    have present : ulDci s.ueMap info.key = some old := by
      simp [ulDci, HarqInfo.key, foundUe, foundProcess, element]
    have present' : ulDci s.ueMap (info.rnti, info.harqProcessId) = some old := present
    obtain ⟨rnti, versions⟩ := own info.key old present
    have size : ulSymbols s.ueMap info = old.numSym := by simp [ulSymbols, present]
    refine ⟨⟨by simpa using nack, old, present, rnti, versions⟩, ?_⟩
    rw [size]
    by_cases fits : old.numSym ≤ s.symAvail
    · rw [if_pos fits] at done
      obtain ⟨rv, first, same⟩ := bind_eq_some_iff.mp done
      cases same
      refine ⟨fun key => ?_, by simp [leave, fits], ?_⟩
      · dsimp only [ulShape]
        rw [ulDci_update s.ueMap (info.rnti, info.harqProcessId) key ue _ foundUe]
        split
        · rename_i here
          rw [here, present']
          simp [versions]
        · rfl
      · simp [dataRntis, fits, rnti, HarqInfo.key]
    · rw [if_neg fits] at done
      cases done
      refine ⟨fun key => ?_, by simp [leave, fits], by simp [fits]⟩
      dsimp only [ulShape]
      rw [ulDci_update s.ueMap (info.rnti, info.harqProcessId) key ue _ foundUe ue.ulMRBRetx]
      split
      · rename_i here
        rw [here, present', element]
      · rfl

theorem dataRntis_scheduleUlHarq {feedback : List UlHarqInfo} {fuel : Nat}
    {s s' : HarqRun UlHarqInfo} (index : i < 2 ^ 16)
    (own : ∀ key dci, ulDci s.ueMap key = some dci → dci.rnti = key.1 ∧ dci.rv ≠ [])
    (done : scheduleUlHarq bandwidthInRbg feedback fuel i s = some s') :
    ∃ infos, Ended s.ueMap feedback infos i s.symAvail ∧ (∀ info ∈ infos, info.Ready s.ueMap) ∧
      dataRntis s'.slotAlloc =
        (retransmitted s.ueMap infos s.symAvail).reverse ++ dataRntis s.slotAlloc := by
  induction fuel generalizing i s with
  | zero =>
    obtain ⟨rfl, stop⟩ | ⟨_, _, _, fuel, _⟩ := scheduleUlHarq_cases done
    · refine ⟨[], ⟨rfl, trivial, ?_⟩, nofun, rfl⟩
      rwa [length_nil, Nat.add_zero, Nat.mod_eq_of_lt index]
    · cases fuel
  | succ fuel ih =>
    obtain ⟨rfl, stop⟩ | ⟨_, info, next, same, entry, left, step, tail⟩ :=
      scheduleUlHarq_cases done
    · refine ⟨[], ⟨rfl, trivial, ?_⟩, nofun, rfl⟩
      rwa [length_nil, Nat.add_zero, Nat.mod_eq_of_lt index]
    · cases same
      obtain ⟨ready, shape, avail, data⟩ := dataRntis_scheduleUlFeedback own step
      obtain ⟨infos, ended, all, data'⟩ := ih (Nat.mod_lt _ (by decide)) (own_shape shape own) tail
      rw [ended_shape shape, avail] at ended
      rw [retransmitted_shape shape, avail] at data'
      refine ⟨info :: infos, ended_cons entry left ended, ?_, ?_⟩
      · rw [forall_mem_cons]
        exact ⟨ready, fun other mem => ready_shape (fun key => (shape key).symm) (all other mem)⟩
      · rw [data', data, retransmitted_cons, reverse_append, append_assoc]
        split <;> rfl

/-- The loop comes to the feedbacks when their processes are ready. -/
theorem scheduleUlHarq_ended (bandwidthInRbg : Nat) {feedback : List UlHarqInfo}
    {s : HarqRun UlHarqInfo} (index : i < 2 ^ 16)
    (own : ∀ key dci, ulDci s.ueMap key = some dci → dci.rnti = key.1 ∧ dci.rv ≠ [])
    (ended : Ended s.ueMap feedback infos i s.symAvail)
    (ready : ∀ info ∈ infos, info.Ready s.ueMap) :
    ∃ s', scheduleUlHarq bandwidthInRbg feedback infos.length i s = some s' ∧
      dataRntis s'.slotAlloc =
        (retransmitted s.ueMap infos s.symAvail).reverse ++ dataRntis s.slotAlloc := by
  induction infos generalizing i s with
  | nil =>
    have stop := ended.stop
    rw [length_nil, Nat.add_zero, Nat.mod_eq_of_lt index] at stop
    exact ⟨s, scheduleUlHarq_nil bandwidthInRbg 0 stop, rfl⟩
  | cons info infos ih =>
    obtain ⟨came, ⟨left, room⟩, stop⟩ := ended
    obtain ⟨_, entry, tail⟩ := bind_eq_some_iff.mp came
    obtain ⟨_, later, same⟩ := bind_eq_some_iff.mp tail
    cases same
    rw [forall_mem_cons] at ready
    obtain ⟨next, step, -⟩ := scheduleUlFeedback_spec bandwidthInRbg ready.1
      (mem_singleton_self info)
    obtain ⟨-, shape, avail, data⟩ := dataRntis_scheduleUlFeedback own step
    have ended' : Ended next.ueMap feedback infos ((i + 1) % 2 ^ 16) next.symAvail := by
      rw [ended_shape shape, avail]
      refine ⟨later, room, stop.imp_right fun past => ?_⟩
      rw [length_cons] at past
      omega
    obtain ⟨s', run, data'⟩ := ih (Nat.mod_lt _ (by decide)) (own_shape shape own) ended'
      fun other mem => ready_shape shape (ready.2 other mem)
    rw [retransmitted_shape shape, avail] at data'
    refine ⟨s', ?_, ?_⟩
    · rw [length_cons, scheduleUlHarq, entry]
      dsimp only
      rw [if_neg (Nat.ne_of_gt left), step]
      exact run
    · rw [data', data, retransmitted_cons, reverse_append, append_assoc]
      split <;> rfl

theorem soundSrs_spec {Info : Type} (srs : Option Nat) (bandwidthInRbg srsCtrlSymbols : Nat)
    (s : HarqRun Info) :
    (soundSrs srs bandwidthInRbg srsCtrlSymbols s).ueMap = s.ueMap ∧
      dataRntis (soundSrs srs bandwidthInRbg srsCtrlSymbols s).slotAlloc =
        dataRntis s.slotAlloc := by
  cases srs with
  | none => exact ⟨rfl, rfl⟩
  | some rnti =>
    unfold soundSrs
    induction srsCtrlSymbols generalizing s with
    | zero => exact ⟨rfl, rfl⟩
    | succ n ih => exact ih _

/-- Of the feedbacks that the loop comes to, no two whose retransmission fits into the symbols
left by those before are of one UE. -/
def DistinctUes (ueMap : UeHarqMap) (feedback : List UlHarqInfo) (symAvail : Nat) : Prop :=
  ∀ infos, Ended ueMap feedback infos 0 symAvail → (∀ info ∈ infos, info.Ready ueMap) →
    (retransmitted ueMap infos symAvail).Nodup

/-- The uplink: a slot without data DCIs gets at most one for each UE exactly when no two
retransmissions that fit are of one UE. -/
theorem doScheduleUl_nodup_iff {allocator : DataAllocator} {srsCtrlSymbols : Nat} {srs : Option Nat}
    {active : Nat → Bool} {order : List Nat} {feedback : List UlHarqInfo} {s : HarqRun UlHarqInfo}
    (own : OwnDcis s.ueMap) (nodup : order.Nodup) (empty : dataRntis s.slotAlloc = []) :
    (∀ fuel s', doScheduleUl allocator bandwidthInRbg srsCtrlSymbols srs active order feedback
        fuel s = some s' → (dataRntis s'.slotAlloc).Nodup) ↔
      DistinctUes s.ueMap feedback (soundSrs srs bandwidthInRbg srsCtrlSymbols s).symAvail := by
  obtain ⟨sameMap, sameData⟩ := soundSrs_spec srs bandwidthInRbg srsCtrlSymbols s
  rw [empty] at sameData
  rw [← sameMap]
  have own' := own.ul
  rw [← sameMap] at own'
  simp only [doScheduleUl, bind_eq_bind, bind_eq_some_iff]
  generalize soundSrs srs bandwidthInRbg srsCtrlSymbols s = sounded at *
  constructor
  · intro all infos ended ready
    by_cases none_ : feedback = []
    · subst none_
      cases infos with
      | nil => exact .nil
      | cons info infos => cases ended.came
    · obtain ⟨next, run, data⟩ := scheduleUlHarq_ended bandwidthInRbg (by decide) own' ended ready
      have retransmit : retransmitUl bandwidthInRbg feedback infos.length sounded = some next := by
        rw [retransmitUl, if_neg none_]
        exact run
      have result := all infos.length _ ⟨next, retransmit, rfl⟩
      rw [scheduleNewData_nodup allocator .ul (valid_computeActiveUe _ _ nodup), data, sameData,
        append_nil, nodup_reverse] at result
      exact result
  · rintro all fuel s' ⟨next, retransmit, same⟩
    cases same
    rw [scheduleNewData_nodup allocator .ul (valid_computeActiveUe _ _ nodup)]
    unfold retransmitUl at retransmit
    split at retransmit
    · cases retransmit
      rw [sameData]
      exact .nil
    · obtain ⟨infos, ended, ready, data⟩ := dataRntis_scheduleUlHarq (by decide) own' retransmit
      rw [data, sameData, append_nil, nodup_reverse]
      exact all infos ended ready

/-- **One data DCI.** For a UE and a slot: the downlink never gives a second one, and the uplink
exactly when all retransmissions that fit are of different UEs. -/
theorem one_data_dci (dlAllocator ulAllocator : DataAllocator)
    (bandwidthInRbg srsCtrlSymbols : Nat) (srs : Option Nat) (dlActive ulActive : Nat → Bool)
    {order : List Nat} (nodup : order.Nodup) {dlHarqFeedback : List DlHarqInfo}
    {active arranged : ActiveHarqMap} (ulHarqFeedback : List UlHarqInfo)
    {s : HarqRun DlHarqInfo} {t : HarqRun UlHarqInfo} (ownDl : OwnDcis s.ueMap)
    (ownUl : OwnDcis t.ueMap) (emptyDl : dataRntis s.slotAlloc = [])
    (emptyUl : dataRntis t.slotAlloc = [])
    (computed : computeActiveHarq s.ueMap dlHarqFeedback [] = some active)
    (sorted : Arranged active arranged) :
    (∀ s', doScheduleDl dlAllocator bandwidthInRbg arranged
        (computeActiveUe s.ueMap dlActive order) dlHarqFeedback s = some s' →
      (dataRntis s'.slotAlloc).Nodup) ∧
    ((∀ fuel t', doScheduleUl ulAllocator bandwidthInRbg srsCtrlSymbols srs ulActive order
        ulHarqFeedback fuel t = some t' → (dataRntis t'.slotAlloc).Nodup) ↔
      DistinctUes t.ueMap ulHarqFeedback (soundSrs srs bandwidthInRbg srsCtrlSymbols t).symAvail) :=
  ⟨fun _ done => doScheduleDl_nodup ownDl computed sorted
      (valid_computeActiveUe s.ueMap dlActive nodup) emptyDl done,
    doScheduleUl_nodup_iff ownUl nodup emptyUl⟩

/-! ## Two processes of a UE -/

/-- No new data. -/
def noData : DataAllocator where
  symPerBeam _ _ _ := 0
  hasRbg _ := false
  shuffle := id
  shuffled := .refl
  createDci _ _ _ := none
  own := nofun
  changeBeam spoint _ := spoint

theorem ownDcis_sentUe (numSym : Nat) : OwnDcis (sentUe numSym) where
  dl := by
    intro key dci found
    unfold dlDci sentUe at found
    split at found
    · rename_i one
      cases found
      exact one.symm
    · cases found
  ul := by
    intro key dci found
    unfold ulDci sentUe at found
    split at found
    · rename_i one
      cases found
      exact ⟨one.symm, cons_ne_nil _ _⟩
    · cases found

/-- Three processes of a UE in the downlink, and one in the uplink. -/
theorem one_data_dci_nacks : (∀ s', doScheduleDl noData 5 [((0, 0), [(1, 0), (1, 1), (1, 2)])]
        (computeActiveUe (sentUe 6) (fun _ => true) [1]) (dlNacks 3) (emptySlot _ 6 1 13) =
          some s' → (dataRntis s'.slotAlloc).Nodup) ∧
    ∀ fuel t', doScheduleUl noData 5 0 none (fun _ => true) [1] (ulNacks 1) fuel
      (emptySlot _ 6 13 13) = some t' → (dataRntis t'.slotAlloc).Nodup := by
  have computed : computeActiveHarq (sentUe 6) (dlNacks 3) [] =
      some [((0, 0), [(1, 0), (1, 1), (1, 2)])] := rfl
  have sorted : Arranged [((0, 0), [(1, 0), (1, 1), (1, 2)])]
      [((0, 0), [(1, 0), (1, 1), (1, 2)])] :=
    ⟨_, .cons ⟨rfl, .refl _⟩ .nil, .refl _⟩
  obtain ⟨dl, ul⟩ := one_data_dci noData noData 5 0 none (fun _ => true) (fun _ => true)
    (nodup_singleton 1) (ulNacks 1) (s := emptySlot _ 6 1 13) (t := emptySlot _ 6 13 13)
    (ownDcis_sentUe 6) (ownDcis_sentUe 6) rfl rfl computed sorted
  refine ⟨dl, ul.mpr ?_⟩
  intro infos ended _
  match infos, ended.came with
  | [], _ => exact .nil
  | [info], _ =>
    simp only [retransmitted]
    split <;> simp

/-- Both processes of six symbols fit into 13 symbols, and the UE gets two data DCIs. -/
theorem two_data_dcis : ∃ (t : HarqRun UlHarqInfo) (ulHarqFeedback : List UlHarqInfo),
    OwnDcis t.ueMap ∧ dataRntis t.slotAlloc = [] ∧
    ¬ ∀ fuel t', doScheduleUl noData 5 0 none (fun _ => true) [1] ulHarqFeedback fuel t =
      some t' → (dataRntis t'.slotAlloc).Nodup := by
  refine ⟨emptySlot _ 6 13 13, ulNacks 2, ownDcis_sentUe 6, rfl, fun all => ?_⟩
  have twice := all 2 _ rfl
  revert twice
  decide

end Ns3.Nr
