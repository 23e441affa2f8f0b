import Ns3.Nr.OfdmaAllocation
import Ns3.Nr.OneDataDci

/-!
# The RBGs of downlink data

New data keeps to the RBGs that are not notched. Retransmissions take the first RBGs of the
symbols of their beam, notched or not.
-/

namespace Ns3.Nr

open List

namespace DciInfoElementTdma

/-- The RBG is one of those of the DCI. -/
def Has (dci : DciInfoElementTdma) (rbg : Nat) : Prop := dci.rbgBitmask[rbg]? = some 1

/-- No symbol in common, or no RBG. -/
def Apart (dci other : DciInfoElementTdma) : Prop :=
  dci.symStart + dci.numSym ≤ other.symStart ∨ other.symStart + other.numSym ≤ dci.symStart ∨
    ∀ rbg, ¬ (dci.Has rbg ∧ other.Has rbg)

/-- The RBGs of all symbols. -/
def rbgs (dci : DciInfoElementTdma) : Nat := dci.rbgBitmask.count 1 * dci.numSym

end DciInfoElementTdma

open DciInfoElementTdma

/-- The data DCIs of a slot. -/
def dataDcis (slotAlloc : SlotAllocInfo) : List DciInfoElementTdma :=
  (slotAlloc.varTtiAllocInfo.map VarTtiAllocInfo.dci).filter fun dci => dci.type = .data

/-! ## Rows of DCIs -/

/-- DCIs over the same symbols, each in RBGs after those of the one before it. -/
def Row (sym numSym : Nat) : (start stop : Nat) → List DciInfoElementTdma → Prop
  | start, stop, [] => start ≤ stop
  | start, stop, dci :: rest =>
    (dci.symStart = sym ∧ dci.numSym = numSym) ∧
      ∃ next, start ≤ next ∧ (∀ rbg, dci.Has rbg → start ≤ rbg ∧ rbg < next) ∧
        Row sym numSym next stop rest

/-- DCIs apart from each other, within some symbols. -/
structure Within (start stop : Nat) (dcis : List DciInfoElementTdma) : Prop where
  apart : dcis.Pairwise Apart
  inside : ∀ dci ∈ dcis, start ≤ dci.symStart ∧ dci.symStart + dci.numSym ≤ stop
  order : start ≤ stop

section
variable {sym numSym start mid stop : Nat} {dcis others : List DciInfoElementTdma}

theorem Row.le (row : Row sym numSym start stop dcis) : start ≤ stop := by
  induction dcis generalizing start with
  | nil => exact row
  | cons dci rest ih =>
    obtain ⟨-, next, le, -, row⟩ := row
    exact le_trans le (ih row)

theorem Row.append (first : Row sym numSym start mid dcis) (second : Row sym numSym mid stop others) :
    Row sym numSym start stop (dcis ++ others) := by
  induction dcis generalizing start with
  | nil =>
    have le : start ≤ mid := first
    cases others with
    | nil => exact le_trans le second
    | cons dci rest =>
      obtain ⟨symbols, next, le', inside, row⟩ := second
      exact ⟨symbols, next, le_trans le le', fun rbg has =>
        ⟨le_trans le (inside rbg has).1, (inside rbg has).2⟩, row⟩
  | cons dci rest ih =>
    obtain ⟨symbols, next, le, inside, row⟩ := first
    exact ⟨symbols, next, le, inside, ih row⟩

theorem Row.inside (row : Row sym numSym start stop dcis) {dci : DciInfoElementTdma}
    (mem : dci ∈ dcis) : (dci.symStart = sym ∧ dci.numSym = numSym) ∧
      ∀ rbg, dci.Has rbg → start ≤ rbg ∧ rbg < stop := by
  induction dcis generalizing start with
  | nil => cases mem
  | cons first rest ih =>
    obtain ⟨symbols, next, le, inside, row⟩ := row
    obtain rfl | mem := mem_cons.mp mem
    · refine ⟨symbols, fun rbg has => ?_⟩
      obtain ⟨low, high⟩ := inside rbg has
      exact ⟨low, lt_of_lt_of_le high row.le⟩
    · obtain ⟨symbols', inside'⟩ := ih row mem
      refine ⟨symbols', fun rbg has => ?_⟩
      obtain ⟨low, high⟩ := inside' rbg has
      exact ⟨le_trans le low, high⟩

theorem Row.within (row : Row sym numSym start stop dcis) : Within sym (sym + numSym) dcis where
  apart := by
    induction dcis generalizing start with
    | nil => exact .nil
    | cons dci rest ih =>
      obtain ⟨-, next, -, inside, row⟩ := row
      rw [pairwise_cons]
      refine ⟨fun other mem => .inr (.inr ?_), ih row⟩
      rintro rbg ⟨has, has'⟩
      have before := (inside rbg has).2
      have after := ((row.inside mem).2 rbg has').1
      omega
  inside := by
    intro dci mem
    obtain ⟨⟨rfl, rfl⟩, -⟩ := row.inside mem
    exact ⟨le_rfl, le_rfl⟩
  order := Nat.le_add_right _ _

theorem Within.nil (le : start ≤ stop) : Within start stop [] := ⟨.nil, nofun, le⟩

theorem Within.append (first : Within start mid dcis) (second : Within mid stop others) :
    Within start stop (dcis ++ others) where
  apart := by
    rw [pairwise_append]
    refine ⟨first.apart, second.apart, fun dci mem other mem' => .inl ?_⟩
    exact le_trans (first.inside dci mem).2 (second.inside other mem').1
  inside := by
    intro dci mem
    obtain mem | mem := mem_append.mp mem
    · obtain ⟨low, high⟩ := first.inside dci mem
      exact ⟨low, le_trans high second.order⟩
    · obtain ⟨low, high⟩ := second.inside dci mem
      exact ⟨le_trans first.order low, high⟩
  order := le_trans first.order second.order

end

/-! ## Retransmissions -/

/-- How many RBGs a retransmission takes in each symbol of the beam. -/
def rbgsPerSymbol (old : DciInfoElementTdma) (symPerBeam : Nat) : Nat :=
  if old.rbgs % symPerBeam = 0 then old.rbgs / symPerBeam else old.rbgs / symPerBeam + 1

/-- The process has to wait: its UE has a DCI, or the RBGs from `rbg` on are not enough. -/
def Waits (bandwidthInRbg symPerBeam : Nat) (old : DciInfoElementTdma) (rbg : Nat)
    (allocatedUe : List Nat) : Prop :=
  old.rnti ∈ allocatedUe ∨ (bandwidthInRbg - rbg) * symPerBeam < old.rbgs

instance (bandwidthInRbg symPerBeam : Nat) (old : DciInfoElementTdma) (rbg : Nat)
    (allocatedUe : List Nat) : Decidable (Waits bandwidthInRbg symPerBeam old rbg allocatedUe) :=
  inferInstanceAs (Decidable (_ ∨ _))

/-- The RBG after the retransmissions of a beam. -/
def harqEnd (bandwidthInRbg symPerBeam : Nat) (ueMap : UeHarqMap) :
    List HarqKey → (rbg : Nat) → (allocatedUe : List Nat) → Nat
  | [], rbg, _ => rbg
  | key :: keys, rbg, allocatedUe =>
    match dlDci ueMap key with
    | none => harqEnd bandwidthInRbg symPerBeam ueMap keys rbg allocatedUe
    | some old =>
      if Waits bandwidthInRbg symPerBeam old rbg allocatedUe then
        harqEnd bandwidthInRbg symPerBeam ueMap keys rbg allocatedUe
      else
        harqEnd bandwidthInRbg symPerBeam ueMap keys (rbg + rbgsPerSymbol old symPerBeam)
          (allocatedUe ++ [old.rnti])

/-- A DCI of the same process over the RBGs from `rbg` to `stop`. -/
structure Resent (old : DciInfoElementTdma) (point : PointInFTPlane) (symPerBeam stop : Nat)
    (dci : DciInfoElementTdma) : Prop where
  rnti : dci.rnti = old.rnti
  process : dci.harqProcess = old.harqProcess
  data : dci.type = .data
  symStart : dci.symStart = point.sym
  numSym : dci.numSym = symPerBeam
  symbols : 0 < dci.numSym
  has : ∀ rbg, dci.Has rbg ↔ point.rbg ≤ rbg ∧ rbg < stop
  count : dci.rbgBitmask.count 1 = rbgsPerSymbol old symPerBeam

/-- Ones in a range of positions. -/
def ones (start stop length : Nat) : List Nat :=
  (List.range length).map fun i => if start ≤ i ∧ i < stop then 1 else 0

theorem ones_getElem? {start stop length : Nat} (inside : stop ≤ length) (i : Nat) :
    (ones start stop length)[i]? = some 1 ↔ start ≤ i ∧ i < stop := by
  unfold ones
  rw [getElem?_map]
  by_cases here : i < length
  · rw [getElem?_range here]
    by_cases one : start ≤ i ∧ i < stop <;> simp [one]
  · rw [getElem?_eq_none (by simpa using here)]
    simp
    omega

theorem count_ones (start stop length : Nat) :
    (ones start stop length).count 1 = min length stop - min length start := by
  induction length with
  | zero => simp [ones]
  | succ length ih =>
    have step : ones start stop (length + 1) =
        ones start stop length ++ [if start ≤ length ∧ length < stop then 1 else 0] := by
      simp [ones, range_succ]
    rw [step, count_append, ih]
    by_cases one : start ≤ length ∧ length < stop
    · rw [if_pos one, count_singleton_self]
      omega
    · rw [if_neg one, count_eq_zero_of_not_mem (by simp)]
      omega

theorem process_retransmitStreams {nacks : List Nat} {old streams : DciInfoElementTdma}
    (sent : retransmitStreams nacks old = some streams) :
    streams.harqProcess = old.harqProcess := by
  unfold retransmitStreams at sent
  dsimp only at sent
  split at sent
  · rw [← Option.some.inj sent]
  · cases sent

/-- **One process.** It waits, or it is sent again after the ones before it. -/
theorem scheduleDlProcess_cases {bandwidthInRbg symPerBeam : Nat} {feedback : List DlHarqInfo}
    {key : HarqKey} {s s' : HarqRun DlHarqInfo} {allocatedUe allocatedUe' : List Nat}
    {old : DciInfoElementTdma} (bandwidth : bandwidthInRbg < 2 ^ 16) (sym : symPerBeam < 256)
    (present : dlDci s.ueMap key = some old) (sent : old.Sent bandwidthInRbg key)
    (inside : s.startingPoint.rbg ≤ bandwidthInRbg)
    (done : scheduleDlProcess bandwidthInRbg symPerBeam feedback key s allocatedUe =
      some (s', allocatedUe')) :
    s'.symUsed = s.symUsed ∧
    (∀ other, other.1 ≠ key.1 → dlDci s'.ueMap other = dlDci s.ueMap other) ∧
    if Waits bandwidthInRbg symPerBeam old s.startingPoint.rbg allocatedUe then
      allocatedUe' = allocatedUe ∧ s'.slotAlloc = s.slotAlloc ∧
        s'.startingPoint = s.startingPoint ∧ ∀ other, dlDci s'.ueMap other = dlDci s.ueMap other
    else
      let stop := s.startingPoint.rbg + rbgsPerSymbol old symPerBeam
      allocatedUe' = allocatedUe ++ [old.rnti] ∧ stop ≤ bandwidthInRbg ∧
        s'.startingPoint = { s.startingPoint with rbg := stop } ∧
        ∃ dci, Resent old s.startingPoint symPerBeam stop dci ∧
          dataDcis s'.slotAlloc = dataDcis s.slotAlloc ++ [dci] := by
  simp only [scheduleDlProcess, Option.bind_eq_bind, Option.bind_eq_some_iff] at done
  obtain ⟨ue, foundUe, process, foundProcess, retx, element, done⟩ := done
  have same : dlDci s.ueMap key = some retx := by simp [dlDci, foundUe, foundProcess, element]
  obtain rfl : retx = old := Option.some.inj (same.symm.trans present)
  have product : (bandwidthInRbg - s.startingPoint.rbg) * symPerBeam < 2 ^ 16 * 256 :=
    Nat.mul_lt_mul'' (by omega) sym
  have difference : (bandwidthInRbg + 2 ^ 32 - s.startingPoint.rbg) % 2 ^ 32 =
      bandwidthInRbg - s.startingPoint.rbg := by omega
  rw [difference, Nat.mod_eq_of_lt (by omega)] at done
  by_cases waits : Waits bandwidthInRbg symPerBeam retx s.startingPoint.rbg allocatedUe
  · have waits' := waits
    unfold Waits DciInfoElementTdma.rbgs at waits'
    rw [if_pos waits'] at done
    rw [if_pos waits]
    cases done
    have kept : ∀ other, dlDci (Function.update s.ueMap key.1 (some { ue with
        dlHarq := Function.update ue.dlHarq key.2 (some { process with
          status := .waitingFeedback, timer := 0 }) })) other = dlDci s.ueMap other := by
      intro other
      rw [dlDci_update s.ueMap key other ue _ foundUe ue.dlMRBRetx]
      split
      · rename_i here
        rw [here, present]
        exact element
      · rfl
    exact ⟨rfl, fun other _ => kept other, rfl, rfl, rfl, kept⟩
  · have waits' := waits
    unfold Waits DciInfoElementTdma.rbgs at waits'
    rw [if_neg waits'] at done
    rw [if_neg waits]
    obtain ⟨streams, resent, done⟩ := Option.bind_eq_some_iff.mp done
    have some_ : 0 < retx.rbgs := mul_pos (count_pos_iff.mpr sent.assigned) sent.symbols
    obtain ⟨symbol, atLeast, within⟩ := rbgs_within some_ (Nat.le_of_not_lt (not_or.mp waits').2)
    rw [if_neg (Nat.ne_of_gt symbol)] at done
    change rbgsPerSymbol retx symPerBeam ≤ _ at within
    have taken : (if retx.rbgBitmask.count 1 * retx.numSym % symPerBeam = 0 then
        retx.rbgBitmask.count 1 * retx.numSym / symPerBeam
      else retx.rbgBitmask.count 1 * retx.numSym / symPerBeam + 1) =
        rbgsPerSymbol retx symPerBeam := rfl
    rw [taken, if_neg (by rw [sent.bitmask]; omega)] at done
    have rnti := rnti_retransmitStreams resent
    have process_ := process_retransmitStreams resent
    simp only [rnti, sent.rnti, Function.update_self, Function.update_idem] at done
    cases done
    refine ⟨rfl, ?_, by rw [sent.rnti], by omega, ?_, ?_⟩
    · intro other differ
      rw [dlDci_update s.ueMap key other ue _ foundUe,
        if_neg fun here => differ (congrArg Prod.fst here)]
    · dsimp only
      rw [Nat.mod_eq_of_lt (by omega)]
    · refine ⟨{ streams with
          rnti := key.1
          symStart := s.startingPoint.sym
          numSym := symPerBeam
          type := .data
          rbgBitmask := ones s.startingPoint.rbg
            (s.startingPoint.rbg + rbgsPerSymbol retx symPerBeam) retx.rbgBitmask.length },
        ⟨sent.rnti.symm, process_, rfl, rfl, rfl, symbol, ?_, ?_⟩, ?_⟩
      rotate_left 2
      · dsimp only [dataDcis]
        rw [map_append, filter_append]
        rfl
      · unfold Has
        rw [sent.bitmask]
        exact ones_getElem? (by omega)
      · rw [sent.bitmask]
        have count := count_ones s.startingPoint.rbg
          (s.startingPoint.rbg + rbgsPerSymbol retx symPerBeam) bandwidthInRbg
        rw [min_eq_right (by omega), min_eq_right inside, Nat.add_sub_cancel_left] at count
        exact count

/-- The DCI of a process of these is sent again. -/
def Replaces (ueMap : UeHarqMap) (keys : List HarqKey) (dci : DciInfoElementTdma) : Prop :=
  ∃ key ∈ keys, ∃ old, dlDci ueMap key = some old ∧ dci.rnti = old.rnti ∧
    dci.harqProcess = old.harqProcess ∧ 0 < dci.numSym ∧
    dci.rbgBitmask.count 1 = rbgsPerSymbol old dci.numSym

theorem Replaces.mono {ueMap : UeHarqMap} {keys keys' : List HarqKey} {dci : DciInfoElementTdma}
    (replaces : Replaces ueMap keys dci) (sub : keys ⊆ keys') : Replaces ueMap keys' dci := by
  obtain ⟨key, mem, old⟩ := replaces
  exact ⟨key, sub mem, old⟩

section
variable {bandwidthInRbg symPerBeam : Nat} {feedback : List DlHarqInfo} {ueMap : UeHarqMap}
variable (bandwidth : bandwidthInRbg < 2 ^ 16) (sym : symPerBeam < 256)
include bandwidth sym

/-- **A beam.** Its retransmissions follow each other without a gap. -/
theorem scheduleDlBeam_row {keys : List HarqKey} {s s' : HarqRun DlHarqInfo}
    {allocatedUe allocatedUe' : List Nat}
    (ready : ∀ key ∈ keys, DlReady bandwidthInRbg s.ueMap key ∧ DlReady bandwidthInRbg ueMap key)
    (known : ∀ key ∈ keys, key ∈ feedback.map (·.key))
    (same : ∀ key ∈ keys, key.1 ∉ allocatedUe → dlDci s.ueMap key = dlDci ueMap key)
    (inside : s.startingPoint.rbg ≤ bandwidthInRbg)
    (done : scheduleDlBeam bandwidthInRbg symPerBeam feedback keys s allocatedUe =
      some (s', allocatedUe')) :
    s'.symUsed = s.symUsed ∧ s'.startingPoint.sym = s.startingPoint.sym ∧
    s'.startingPoint.rbg =
      harqEnd bandwidthInRbg symPerBeam ueMap keys s.startingPoint.rbg allocatedUe ∧
    (∀ other, other.1 ∉ keys.map Prod.fst → dlDci s'.ueMap other = dlDci s.ueMap other) ∧
    ∃ added, dataDcis s'.slotAlloc = dataDcis s.slotAlloc ++ added ∧
      allocatedUe' = allocatedUe ++ added.map DciInfoElementTdma.rnti ∧
      Row s.startingPoint.sym symPerBeam s.startingPoint.rbg s'.startingPoint.rbg added ∧
      (∀ rbg, (∃ dci ∈ added, dci.Has rbg) ↔
        s.startingPoint.rbg ≤ rbg ∧ rbg < s'.startingPoint.rbg) ∧
      ∀ dci ∈ added, Replaces ueMap keys dci := by
  induction keys generalizing s allocatedUe with
  | nil =>
    cases done
    refine ⟨rfl, rfl, rfl, fun _ _ => rfl, [], by simp, by simp, le_rfl, ?_, nofun⟩
    intro rbg
    refine iff_of_false nofun ?_
    omega
  | cons key keys ih =>
    simp only [scheduleDlBeam, Option.bind_eq_bind, Option.bind_eq_some_iff] at done
    obtain ⟨⟨next, allocated⟩, first, done⟩ := done
    rw [forall_mem_cons] at ready known same
    obtain ⟨⟨now, old₀, present₀, sent₀⟩, ready⟩ := ready
    obtain ⟨next', allocated', first', kept, within, -, -⟩ :=
      scheduleDlProcess_spec allocatedUe bandwidth sym now known.1 inside
    cases first.symm.trans first'
    obtain ⟨old, present, sent⟩ := now
    obtain ⟨used, others, placed⟩ := scheduleDlProcess_cases bandwidth sym present sent inside first
    have ready' : ∀ other ∈ keys,
        DlReady bandwidthInRbg next.ueMap other ∧ DlReady bandwidthInRbg ueMap other :=
      fun other mem => ⟨kept other (ready other mem).1, (ready other mem).2⟩
    -- The DCI of a UE without an allocation is still the old one.
    have agree : key.1 ∉ allocatedUe → old = old₀ := by
      intro free
      have still := same.1 free
      rw [present, present₀] at still
      exact Option.some.inj still
    rw [harqEnd, present₀]
    dsimp only
    by_cases waits : Waits bandwidthInRbg symPerBeam old s.startingPoint.rbg allocatedUe
    · have waits₀ : Waits bandwidthInRbg symPerBeam old₀ s.startingPoint.rbg allocatedUe := by
        by_cases taken : key.1 ∈ allocatedUe
        · exact .inl (sent₀.rnti ▸ taken)
        · exact agree taken ▸ waits
      rw [if_pos waits] at placed
      rw [if_pos waits₀]
      obtain ⟨rfl, slot, point, unchanged⟩ := placed
      obtain ⟨used', sym', end_, others', added, data, allocated', row, has, replaces⟩ :=
        ih ready' known.2 (fun other mem free => (unchanged other).trans (same.2 other mem free))
          within done
      rw [point] at sym' end_ row has
      rw [slot] at data
      refine ⟨used'.trans used, sym', end_, ?_, added, data, allocated', row, has, ?_⟩
      · intro other outside
        rw [map_cons, mem_cons, not_or] at outside
        exact (others' other outside.2).trans (unchanged other)
      · exact fun dci mem => (replaces dci mem).mono (subset_cons_self _ _)
    · have free : key.1 ∉ allocatedUe := fun taken => waits (.inl (sent.rnti ▸ taken))
      obtain rfl := agree free
      rw [if_neg waits] at placed
      rw [if_neg waits]
      obtain ⟨rfl, bound, point, dci, resent, slot⟩ := placed
      have same' : ∀ other ∈ keys, other.1 ∉ allocatedUe ++ [old.rnti] →
          dlDci next.ueMap other = dlDci ueMap other := by
        intro other mem free'
        rw [mem_append, not_or, mem_singleton, sent.rnti] at free'
        exact (others other free'.2).trans (same.2 other mem free'.1)
      obtain ⟨used', sym', end_, others', added, data, allocated', row, has, replaces⟩ :=
        ih ready' known.2 same' within done
      rw [point] at sym' end_ row has
      rw [slot, append_assoc] at data
      dsimp only at sym' end_ row has
      have le := row.le
      refine ⟨used'.trans used, sym', end_, ?_, dci :: added, data, ?_, ?_, ?_, ?_⟩
      · intro other outside
        rw [map_cons, mem_cons, not_or] at outside
        exact (others' other outside.2).trans (others other outside.1)
      · rw [allocated', map_cons, resent.rnti, append_assoc]
        rfl
      · exact ⟨⟨resent.symStart, resent.numSym⟩, _, Nat.le_add_right _ _,
          fun rbg has' => (resent.has rbg).mp has', row⟩
      · intro rbg
        rw [exists_mem_cons_iff, resent.has, has]
        omega
      · rw [forall_mem_cons]
        refine ⟨⟨key, mem_cons_self, old, present₀, resent.rnti, resent.process,
          resent.symbols, ?_⟩, ?_⟩
        · rw [resent.numSym]
          exact resent.count
        · exact fun other mem => (replaces other mem).mono (subset_cons_self _ _)

/-- The beams follow each other, each of them from the first RBG on. -/
theorem scheduleDlBeams_within {beams : List (List HarqKey)} {s s' : HarqRun DlHarqInfo}
    (ready : ∀ key ∈ beams.flatten,
      DlReady bandwidthInRbg s.ueMap key ∧ DlReady bandwidthInRbg ueMap key)
    (known : ∀ key ∈ beams.flatten, key ∈ feedback.map (·.key))
    (same : ∀ key ∈ beams.flatten, dlDci s.ueMap key = dlDci ueMap key)
    (apart : beams.Pairwise fun keys keys' => (keys.map Prod.fst).Disjoint (keys'.map Prod.fst))
    (start : s.startingPoint.rbg = 0)
    (small : s.startingPoint.sym + beams.length * symPerBeam < 256)
    (unused : s.symUsed ≤ s.startingPoint.sym)
    (done : scheduleDlBeams bandwidthInRbg symPerBeam feedback beams s = some s') :
    s'.startingPoint.rbg = 0 ∧
    s'.startingPoint.sym ≤ s.startingPoint.sym + beams.length * symPerBeam ∧
    s'.symUsed + s.startingPoint.sym = s.symUsed + s'.startingPoint.sym ∧
    ∃ added, dataDcis s'.slotAlloc = dataDcis s.slotAlloc ++ added ∧
      Within s.startingPoint.sym s'.startingPoint.sym added ∧
      (∀ rbg, (∃ dci ∈ added, dci.Has rbg) ↔
        ∃ keys ∈ beams, rbg < harqEnd bandwidthInRbg symPerBeam ueMap keys 0 []) ∧
      ∀ dci ∈ added, Replaces ueMap beams.flatten dci := by
  induction beams generalizing s with
  | nil =>
    cases done
    refine ⟨start, by simp, rfl, [], by simp, .nil le_rfl, ?_, nofun⟩
    exact fun rbg => iff_of_false nofun nofun
  | cons keys beams ih =>
    simp only [scheduleDlBeams, Option.bind_eq_bind, Option.bind_eq_some_iff] at done
    obtain ⟨⟨next, allocated⟩, first, done⟩ := done
    have ready₁ : ∀ key ∈ keys, DlReady bandwidthInRbg s.ueMap key ∧
        DlReady bandwidthInRbg ueMap key := fun key mem => ready key (mem_append_left _ mem)
    have known₁ : ∀ key ∈ keys, key ∈ feedback.map (·.key) :=
      fun key mem => known key (mem_append_left _ mem)
    obtain ⟨next', allocated', first', kept, -, -⟩ :=
      scheduleDlBeam_spec bandwidth sym [] (fun key mem => (ready₁ key mem).1) known₁ (by omega)
    cases first.symm.trans first'
    obtain ⟨used, sym', end_, others, added, data, allocated_, row, has, replaces⟩ :=
      scheduleDlBeam_row bandwidth sym ready₁ known₁
        (fun key mem _ => same key (mem_append_left _ mem)) (by omega) first
    rw [start] at end_ row has
    rw [pairwise_cons] at apart
    rw [length_cons, Nat.add_mul, one_mul] at small ⊢
    have later : ∀ moved : HarqRun DlHarqInfo, moved.ueMap = next.ueMap →
        dataDcis moved.slotAlloc = dataDcis next.slotAlloc → moved.startingPoint.rbg = 0 →
        s.startingPoint.sym ≤ moved.startingPoint.sym →
        moved.startingPoint.sym ≤ s.startingPoint.sym + symPerBeam →
        moved.symUsed + s.startingPoint.sym = s.symUsed + moved.startingPoint.sym →
        Within s.startingPoint.sym moved.startingPoint.sym added →
        scheduleDlBeams bandwidthInRbg symPerBeam feedback beams moved = some s' →
        s'.startingPoint.rbg = 0 ∧
        s'.startingPoint.sym ≤ s.startingPoint.sym + (beams.length * symPerBeam + symPerBeam) ∧
        s'.symUsed + s.startingPoint.sym = s.symUsed + s'.startingPoint.sym ∧
        ∃ added, dataDcis s'.slotAlloc = dataDcis s.slotAlloc ++ added ∧
          Within s.startingPoint.sym s'.startingPoint.sym added ∧
          (∀ rbg, (∃ dci ∈ added, dci.Has rbg) ↔ ∃ keys' ∈ keys :: beams,
            rbg < harqEnd bandwidthInRbg symPerBeam ueMap keys' 0 []) ∧
          ∀ dci ∈ added, Replaces ueMap (keys ++ beams.flatten) dci := by
      intro moved sameMap sameData zero low high used' within done
      obtain ⟨zero', high', used'', more, data', within', has', replaces'⟩ := ih
        (fun key mem => ⟨sameMap ▸ kept key (ready key (mem_append_right _ mem)).1,
          (ready key (mem_append_right _ mem)).2⟩)
        (fun key mem => known key (mem_append_right _ mem))
        (fun key mem => by
          obtain ⟨keys', among, own⟩ := mem_flatten.mp mem
          have outside : key.1 ∉ keys.map Prod.fst := fun inside =>
            apart.1 keys' among inside (mem_map_of_mem own)
          rw [sameMap, others key outside]
          exact same key (mem_append_right _ mem))
        apart.2 zero (by omega) (by omega) done
      refine ⟨zero', by omega, by omega, added ++ more, ?_, within.append within', ?_, ?_⟩
      · rw [data', sameData, data, append_assoc]
      · intro rbg
        rw [exists_mem_cons_iff, ← end_, ← has']
        simp [or_and_right, exists_or, has rbg]
      · intro dci mem
        obtain mem | mem := mem_append.mp mem
        · exact (replaces dci mem).mono (subset_append_left _ _)
        · exact (replaces' dci mem).mono (subset_append_right _ _)
    by_cases none_ : allocated = []
    · rw [if_pos none_] at done
      have nothing : added = [] := by
        rw [none_, nil_append] at allocated_
        exact map_eq_nil_iff.mp allocated_.symm
      subst nothing
      have zero : next.startingPoint.rbg = 0 := by
        have first_ := has 0
        simp only [not_mem_nil, false_and, exists_false, false_iff] at first_
        omega
      exact later next rfl rfl zero (by omega) (by omega) (by omega)
        (.nil (le_of_eq sym'.symm)) done
    · rw [if_neg none_] at done
      have point : (next.startingPoint.sym + symPerBeam) % 256 =
          s.startingPoint.sym + symPerBeam := by omega
      refine later _ (by rfl) (by rfl) (by rfl) ?_ ?_ ?_ ?_ done
      · dsimp only
        omega
      · dsimp only
        omega
      · dsimp only
        omega
      · dsimp only
        rw [point]
        exact row.within

end

/-! ## New data -/

namespace NrMacSchedulerOfdma

variable {ofdma : NrMacSchedulerOfdma} {symAvail : Nat} {active : ActiveUes}

theorem dlRbg_of_mem (nodup : active.rntis.Nodup) {entry : (Nat × Nat) × List Nat}
    (mem : entry ∈ active) {rnti : Nat} (own : rnti ∈ entry.2) :
    ofdma.dlRbg symAvail active rnti =
      (ofdma.assignDlRbg entry.2).count rnti * ofdma.symPerBeam symAvail active entry.1 := by
  have none_ : ∀ other : (Nat × Nat) × List Nat, rnti ∉ other.2 →
      (ofdma.assignDlRbg other.2).count rnti * ofdma.symPerBeam symAvail active other.1 = 0 := by
    intro other outside
    have gets : ∀ rnti ∈ ofdma.assignDlRbg other.2, rnti ∈ other.2 :=
      (@assignRbgs_spec ofdma other.2 ofdma.resources [] nofun).2
    simp [count_eq_zero_of_not_mem fun inside => outside (gets rnti inside)]
  unfold dlRbg
  generalize hf : (fun entry : (Nat × Nat) × List Nat =>
    (ofdma.assignDlRbg entry.2).count rnti * ofdma.symPerBeam symAvail active entry.1) = f
  have none' : ∀ other : (Nat × Nat) × List Nat, rnti ∉ other.2 → f other = 0 := hf ▸ none_
  rw [show (ofdma.assignDlRbg entry.2).count rnti * ofdma.symPerBeam symAvail active entry.1 =
    f entry from hf ▸ rfl]
  clear none_ hf
  induction active with
  | nil => cases mem
  | cons first rest ih =>
    rw [ActiveUes.rntis, flatMap_cons, nodup_append'] at nodup
    obtain ⟨-, others, apart⟩ := nodup
    rw [map_cons, sum_cons]
    obtain rfl | mem := mem_cons.mp mem
    · have zero : (rest.map f).sum = 0 := by
        apply sum_eq_zero
        intro x inside
        obtain ⟨other, among, rfl⟩ := mem_map.mp inside
        exact none' other fun here => apart own (mem_flatMap.mpr ⟨other, among, here⟩)
      simp [zero]
    · rw [none' first fun here => apart here (mem_flatMap.mpr ⟨entry, mem, own⟩), zero_add]
      exact ih others mem

/-- What is new keeps to the mask, with the RBGs that the UE got. -/
structure Fresh (ofdma : NrMacSchedulerOfdma) (symAvail : Nat) (active : ActiveUes)
    (dci : DciInfoElementTdma) : Prop where
  masked : ∀ rbg, dci.Has rbg → ofdma.rbgMask[rbg]? = some 1
  symbols : 0 < dci.numSym
  rbgs : dci.rbgs = ofdma.dlRbg symAvail active dci.rnti

/-- **`CreateDlDci`**: the DCI takes the next RBGs of the mask. -/
theorem createDlDci_spec {spoint spoint' : PointInFTPlane} {rnti maxSym n : Nat}
    {alloc : VarTtiAllocInfo} (pos : 0 < maxSym) (small : maxSym < 256) (some_ : 0 < n)
    (assigned : ofdma.dlRbg symAvail active rnti = n * maxSym)
    (enough : n ≤ (ofdma.rbgMask.drop spoint.rbg).count 1)
    (done : ofdma.createDlDci symAvail active spoint rnti maxSym = some (alloc, spoint')) :
    spoint'.sym = spoint.sym ∧ alloc.dci.type = .data ∧
      (ofdma.rbgMask.drop spoint'.rbg).count 1 + n = (ofdma.rbgMask.drop spoint.rbg).count 1 ∧
      Row spoint.sym maxSym spoint.rbg spoint'.rbg [alloc.dci] ∧
      Fresh ofdma symAvail active alloc.dci := by
  unfold createDlDci at done
  dsimp only at done
  split at done
  · cases done
  rw [assigned, Nat.mul_div_cancel n pos] at done
  have taken : Taken spoint.rbg 0 ofdma.rbgMask n spoint.rbg
      (takeRbgs spoint.rbg 0 ofdma.rbgMask n spoint.rbg).1
      (takeRbgs spoint.rbg 0 ofdma.rbgMask n spoint.rbg).2 := takeRbgs_spec enough
  cases done
  obtain ⟨-, count, inside, -, moved⟩ := taken
  obtain ⟨from_, -, left⟩ := moved some_
  have sym : maxSym % 256 = maxSym := Nat.mod_eq_of_lt small
  refine ⟨rfl, rfl, left, ⟨⟨rfl, sym⟩, _, Nat.le_succ_of_le from_, ?_, le_rfl⟩, ?_, ?_, ?_⟩
  · intro rbg has
    have at_ := (inside rbg has).2
    omega
  · exact fun rbg has => (inside rbg has).1
  · exact sym.symm ▸ pos
  · dsimp only [DciInfoElementTdma.rbgs]
    rw [count, sym, assigned]

theorem dataDcis_emplace (slotAlloc : SlotAllocInfo) {alloc : VarTtiAllocInfo}
    (data : alloc.dci.type = .data) :
    dataDcis (slotAlloc.emplace .dl alloc) = dataDcis slotAlloc ++ [alloc.dci] := by
  simp [dataDcis, SlotAllocInfo.emplace, data]

theorem scheduleDataUe_cases (symOfBeam : Nat) (s : BeamRun) (rnti : Nat) :
    scheduleDataUe (ofdma.allocator symAvail active) .dl symOfBeam s rnti = s ∨
      ofdma.dlRbg symAvail active rnti ≠ 0 ∧ ∃ alloc spoint,
        ofdma.createDlDci symAvail active s.spoint rnti symOfBeam = some (alloc, spoint) ∧
        (scheduleDataUe (ofdma.allocator symAvail active) .dl symOfBeam s rnti).spoint = spoint ∧
        (scheduleDataUe (ofdma.allocator symAvail active) .dl symOfBeam s rnti).slotAlloc =
          s.slotAlloc.emplace .dl alloc ∧
        (scheduleDataUe (ofdma.allocator symAvail active) .dl symOfBeam s rnti).assigned := by
  unfold scheduleDataUe
  by_cases gets : ofdma.dlRbg symAvail active rnti = 0
  · left
    rw [if_neg (by simp [allocator, gets])]
  · rw [if_pos (by simp [allocator, gets])]
    have creates : (ofdma.allocator symAvail active).createDci s.spoint rnti symOfBeam =
        ofdma.createDlDci symAvail active s.spoint rnti symOfBeam := rfl
    rw [creates]
    cases ofdma.createDlDci symAvail active s.spoint rnti symOfBeam with
    | none => exact .inl rfl
    | some result => exact .inr ⟨gets, result.1, result.2, rfl, rfl, rfl, rfl⟩

section
variable {symOfBeam : Nat} (pos : 0 < symOfBeam) (small : symOfBeam < 256)
include pos small

/-- **The UEs of a beam** follow each other. -/
theorem scheduleDataUes_row {rntis : List Nat} {count : Nat → Nat}
    (assigned : ∀ rnti ∈ rntis, ofdma.dlRbg symAvail active rnti = count rnti * symOfBeam)
    {s : BeamRun}
    (enough : (rntis.map count).sum ≤ (ofdma.rbgMask.drop s.spoint.rbg).count 1) :
    let s' := rntis.foldl (scheduleDataUe (ofdma.allocator symAvail active) .dl symOfBeam) s
    s'.spoint.sym = s.spoint.sym ∧
    ∃ added, dataDcis s'.slotAlloc = dataDcis s.slotAlloc ++ added ∧
      Row s.spoint.sym symOfBeam s.spoint.rbg s'.spoint.rbg added ∧
      (s'.assigned = false → s.assigned = false ∧ added = [] ∧ s'.spoint = s.spoint) ∧
      ∀ dci ∈ added, Fresh ofdma symAvail active dci := by
  induction rntis generalizing s with
  | nil => exact ⟨rfl, [], by simp, le_rfl, fun none_ => ⟨none_, rfl, rfl⟩, nofun⟩
  | cons rnti rntis ih =>
    rw [forall_mem_cons] at assigned
    rw [map_cons, sum_cons] at enough
    rw [foldl_cons]
    obtain same | ⟨some_, alloc, spoint, created, point, slot, ended⟩ :=
      scheduleDataUe_cases symOfBeam s rnti
    · rw [same]
      exact ih assigned.2 (by omega)
    have gets : 0 < count rnti := by
      apply pos_of_ne_zero
      intro none_
      rw [assigned.1, none_, Nat.zero_mul] at some_
      exact some_ rfl
    obtain ⟨sym, data, left, row, fresh⟩ :=
      createDlDci_spec pos small gets assigned.1 (by omega) created
    generalize scheduleDataUe (ofdma.allocator symAvail active) .dl symOfBeam s rnti = next at *
    subst point
    obtain ⟨sym', added, data', row', last, fresh'⟩ := @ih assigned.2 next (by omega)
    rw [sym] at sym' row'
    refine ⟨sym', alloc.dci :: added, ?_, row.append row', ?_, ?_⟩
    · rw [data', slot, dataDcis_emplace s.slotAlloc data, append_assoc]
      rfl
    · intro none_
      have first := (last none_).1
      rw [ended] at first
      cases first
    · rw [forall_mem_cons]
      exact ⟨fresh, fresh'⟩

/-- **A beam** takes its symbols, if any of its UEs gets a DCI. -/
theorem scheduleDataBeam_row {rntis : List Nat} {count : Nat → Nat}
    (assigned : ∀ rnti ∈ rntis, ofdma.dlRbg symAvail active rnti = count rnti * symOfBeam)
    (enough : (rntis.map count).sum ≤ ofdma.rbgMask.count 1) {s : DataRun}
    (start : s.spoint.rbg = 0) (room : s.spoint.sym + symOfBeam < 256) :
    let s' := scheduleDataBeam (ofdma.allocator symAvail active) .dl symOfBeam rntis s
    s'.spoint.rbg = 0 ∧ s'.spoint.sym ≤ s.spoint.sym + symOfBeam ∧
    ∃ added, dataDcis s'.slotAlloc = dataDcis s.slotAlloc ++ added ∧
      Within s.spoint.sym s'.spoint.sym added ∧
      ∀ dci ∈ added, Fresh ofdma symAvail active dci := by
  have perm := ofdma.shuffled rntis
  have assigned' : ∀ rnti ∈ ofdma.shuffle rntis,
      ofdma.dlRbg symAvail active rnti = count rnti * symOfBeam :=
    fun rnti mem => assigned rnti (perm.mem_iff.mp mem)
  have enough' : ((ofdma.shuffle rntis).map count).sum ≤
      (ofdma.rbgMask.drop s.spoint.rbg).count 1 := by
    rw [(perm.map count).sum_eq, start, drop_zero]
    exact enough
  obtain ⟨sym, added, data, row, none_, fresh⟩ := scheduleDataUes_row pos small assigned'
    (s := ⟨s.spoint, s.slotAlloc, [], 0, false⟩) enough'
  have shuffle : (ofdma.allocator symAvail active).shuffle rntis = ofdma.shuffle rntis := rfl
  unfold scheduleDataBeam
  rw [if_neg (Nat.ne_of_gt pos), shuffle]
  generalize (ofdma.shuffle rntis).foldl
    (scheduleDataUe (ofdma.allocator symAvail active) .dl symOfBeam)
    ⟨s.spoint, s.slotAlloc, [], 0, false⟩ = run at *
  dsimp only at *
  by_cases some_ : run.assigned = true
  · rw [if_pos some_]
    have point : (run.spoint.sym + symOfBeam) % 256 = s.spoint.sym + symOfBeam := by omega
    refine ⟨rfl, le_of_eq point, added, data, ?_, fresh⟩
    change Within s.spoint.sym ((run.spoint.sym + symOfBeam) % 256) added
    rw [point]
    exact row.within
  · obtain ⟨-, rfl, same⟩ := none_ (Bool.eq_false_iff.mpr some_)
    rw [if_neg some_]
    rw [same]
    exact ⟨start, Nat.le_add_right _ _, [], data, .nil le_rfl, nofun⟩

end

theorem rbgMask_count (ofdma : NrMacSchedulerOfdma) : ofdma.rbgMask.count 1 = ofdma.resources := by
  unfold rbgMask resources
  by_cases none_ : ofdma.dlNotchedRbgsMask.length = 0
  · rw [if_pos none_, if_neg (by omega), count_replicate_self]
  · rw [if_neg none_, if_pos (pos_of_ne_zero none_)]

/-- **New data**: the beams follow each other. -/
theorem doScheduleData_within (small : symAvail < 256) (valid : active.Valid)
    {spoint : PointInFTPlane} {slotAlloc : SlotAllocInfo} (start : spoint.rbg = 0)
    (room : spoint.sym + symAvail < 256) :
    ∃ added stop, dataDcis (doScheduleData (ofdma.allocator symAvail active) .dl symAvail active
        spoint slotAlloc).slotAlloc = dataDcis slotAlloc ++ added ∧
      Within spoint.sym stop added ∧ ∀ dci ∈ added, Fresh ofdma symAvail active dci := by
  have run : ∀ (beams : ActiveUes) (s : DataRun), (∀ beam ∈ beams, beam ∈ active) →
      s.spoint.rbg = 0 →
      s.spoint.sym + (beams.map fun beam => ofdma.symPerBeam symAvail active beam.1).sum < 256 →
      ∃ added stop, dataDcis (beams.foldl (fun s beam =>
          scheduleDataBeam (ofdma.allocator symAvail active) .dl
            (ofdma.symPerBeam symAvail active beam.1) beam.2 s) s).slotAlloc =
          dataDcis s.slotAlloc ++ added ∧
        Within s.spoint.sym stop added ∧ ∀ dci ∈ added, Fresh ofdma symAvail active dci := by
    intro beams
    induction beams with
    | nil => exact fun s _ _ _ => ⟨[], s.spoint.sym, by simp, .nil le_rfl, nofun⟩
    | cons beam beams ih =>
      intro s among zero fits
      rw [forall_mem_cons] at among
      rw [map_cons, sum_cons] at fits
      rw [foldl_cons]
      by_cases none_ : ofdma.symPerBeam symAvail active beam.1 = 0
      · have skip : scheduleDataBeam (ofdma.allocator symAvail active) .dl
            (ofdma.symPerBeam symAvail active beam.1) beam.2 s = s := by
          unfold scheduleDataBeam
          rw [if_pos none_]
        rw [skip]
        exact ih s among.2 zero (by omega)
      · have own : beam.2.Nodup := by
          have nodup := valid.rntis
          rw [ActiveUes.rntis, nodup_flatMap] at nodup
          exact nodup.1 beam among.1
        obtain ⟨zero', high, added, data, within, fresh⟩ :=
          scheduleDataBeam_row (pos_of_ne_zero none_) (by omega)
            (fun rnti mem => dlRbg_of_mem valid.rntis among.1 mem)
            (by rw [rbgMask_count]; exact assignDlRbg_fits own) zero (by omega)
        obtain ⟨more, stop, data', within', fresh'⟩ := ih _ among.2 zero' (by omega)
        refine ⟨added ++ more, stop, ?_, within.append within', ?_⟩
        · rw [data', data, append_assoc]
        · intro dci mem
          exact (mem_append.mp mem).elim (fresh dci) (fresh' dci)
  have fits := @symPerBeam_fits ofdma symAvail small active
  exact run active ⟨spoint, slotAlloc, 0⟩ (fun _ mem => mem) start (by dsimp only; omega)

/-! ## The slot -/

/-- Every RBG that the retransmissions of a beam take is free of notches. -/
def HarqClear (ofdma : NrMacSchedulerOfdma) (arranged : ActiveHarqMap)
    (s : HarqRun DlHarqInfo) : Prop :=
  ofdma.dlNotchedRbgsMask = [] ∨ ∀ entry ∈ arranged,
    ∀ rbg < harqEnd ofdma.bandwidthInRbg (s.symAvail / arranged.length) s.ueMap entry.2 0 [],
      ofdma.dlNotchedRbgsMask[rbg]? = some 1

/-- The data DCIs of the slot keep to the mask, those that share symbols have no RBG in common,
and each has the RBGs that were assigned: for a retransmission those of the old DCI, for new data
those of `AssignDLRBG`. -/
structure DlDataSound (ofdma : NrMacSchedulerOfdma) (arranged : ActiveHarqMap)
    (activeDlUe : ActiveUes) (feedback : List DlHarqInfo) (s s' : HarqRun DlHarqInfo) : Prop where
  contained : ofdma.dlNotchedRbgsMask ≠ [] → ∀ dci ∈ dataDcis s'.slotAlloc, ∀ rbg, dci.Has rbg →
    ofdma.dlNotchedRbgsMask[rbg]? = some 1
  apart : (dataDcis s'.slotAlloc).Pairwise Apart
  counted : ∃ t fresh, retransmitDl ofdma.bandwidthInRbg arranged feedback s = some t ∧
    dataDcis s'.slotAlloc = dataDcis t.slotAlloc ++ fresh ∧
    (∀ dci ∈ dataDcis t.slotAlloc, Replaces s.ueMap (arranged.map Prod.snd).flatten dci) ∧
    ∀ dci ∈ fresh, 0 < dci.numSym ∧ dci.rbgs = ofdma.dlRbg (sub8 s.symAvail t.symUsed)
      (removeAllocated t.slotAlloc.varTtiAllocInfo activeDlUe) dci.rnti

theorem retransmitDl_within {bandwidthInRbg : Nat} {feedback : List DlHarqInfo}
    {active arranged : ActiveHarqMap} {s : HarqRun DlHarqInfo} (bandwidth : bandwidthInRbg < 2 ^ 16)
    (start : s.startingPoint.rbg = 0) (unused : s.symUsed = 0)
    (room : s.startingPoint.sym + s.symAvail < 256) (empty : dataDcis s.slotAlloc = [])
    (ready : ∀ info ∈ feedback, DlReady bandwidthInRbg s.ueMap info.key)
    (computed : computeActiveHarq s.ueMap feedback [] = some active)
    (sorted : Arranged active arranged) :
    ∃ t, retransmitDl bandwidthInRbg arranged feedback s = some t ∧ t.startingPoint.rbg = 0 ∧
      t.symUsed ≤ s.symAvail ∧ t.startingPoint.sym = s.startingPoint.sym + t.symUsed ∧
      Within s.startingPoint.sym t.startingPoint.sym (dataDcis t.slotAlloc) ∧
      (∀ rbg, (∃ dci ∈ dataDcis t.slotAlloc, dci.Has rbg) ↔ ∃ entry ∈ arranged, rbg <
        harqEnd bandwidthInRbg (s.symAvail / arranged.length) s.ueMap entry.2 0 []) ∧
      ∀ dci ∈ dataDcis t.slotAlloc, Replaces s.ueMap (arranged.map Prod.snd).flatten dci := by
  unfold retransmitDl
  by_cases none_ : arranged = []
  · subst none_
    refine ⟨s, rfl, start, by omega, by omega, ?_, ?_, ?_⟩
    · rw [empty]
      exact .nil le_rfl
    · rw [empty]
      exact fun rbg => iff_of_false nofun nofun
    · rw [empty]
      exact nofun
  · obtain ⟨active', computed', all⟩ := computeActiveHarq_spec [] ready
    cases computed.symm.trans computed'
    have keys := sorted.perm.trans all
    simp only [map_nil, flatten_nil, nil_append] at keys
    have known : ∀ key ∈ (arranged.map Prod.snd).flatten, key ∈ feedback.map (·.key) :=
      fun key mem => keys.mem_iff.mp mem
    have ready' : ∀ key ∈ (arranged.map Prod.snd).flatten, DlReady bandwidthInRbg s.ueMap key := by
      intro key mem
      obtain ⟨info, inside, rfl⟩ := mem_map.mp (known key mem)
      exact ready info inside
    have byBeam : ByBeam s.ueMap [] := ⟨.nil, nofun⟩
    have apart := ((byBeam_computeActiveHarq byBeam computed).arranged sorted).apart
    have shares : (arranged.map Prod.snd).length * (s.symAvail / arranged.length) ≤ s.symAvail := by
      rw [length_map]
      exact Nat.mul_div_le _ _
    have share : s.symAvail / arranged.length < 256 :=
      lt_of_le_of_lt (Nat.div_le_self _ _) (by omega)
    obtain ⟨t, done, -⟩ := scheduleDlBeams_spec bandwidth share ready' known start
    obtain ⟨zero, high, used, added, data, within, has, replaces⟩ :=
      scheduleDlBeams_within bandwidth share (fun key mem => ⟨ready' key mem, ready' key mem⟩) known
        (fun _ _ => rfl) apart start (by omega) (by omega) done
    rw [empty, nil_append] at data
    rw [if_neg none_, scheduleDlHarq, if_neg none_]
    refine ⟨t, done, zero, by omega, by omega, data ▸ within, ?_, data ▸ replaces⟩
    intro rbg
    rw [data, has]
    simp only [mem_map, exists_exists_and_eq_and]

theorem scheduleNewData_within {activeDlUe : ActiveUes} {s : HarqRun DlHarqInfo}
    (small : symAvail < 256) (valid : activeDlUe.Valid) (start : s.startingPoint.rbg = 0)
    (room : s.startingPoint.sym + symAvail < 256) :
    ∃ fresh stop, dataDcis (scheduleNewData (ofdma.allocator symAvail
        (removeAllocated s.slotAlloc.varTtiAllocInfo activeDlUe)) .dl activeDlUe symAvail
        s).slotAlloc = dataDcis s.slotAlloc ++ fresh ∧
      Within s.startingPoint.sym stop fresh ∧ ∀ dci ∈ fresh, Fresh ofdma symAvail
        (removeAllocated s.slotAlloc.varTtiAllocInfo activeDlUe) dci := by
  obtain ⟨valid', -, -⟩ := removeAllocated_spec s.slotAlloc.varTtiAllocInfo valid
  unfold scheduleNewData
  dsimp only
  split
  · exact doScheduleData_within small valid' start room
  · exact ⟨[], s.startingPoint.sym, by simp, .nil le_rfl, nofun⟩

/-- **Notched RBGs.** The call returns, and the data of the slot is as it has to be exactly when
no retransmission is placed over a notch. -/
theorem dl_data_sound_iff (ofdma : NrMacSchedulerOfdma) {feedback : List DlHarqInfo}
    {active arranged : ActiveHarqMap} {activeDlUe : ActiveUes} {s : HarqRun DlHarqInfo}
    (bandwidth : ofdma.bandwidthInRbg < 2 ^ 16) (start : s.startingPoint.rbg = 0)
    (unused : s.symUsed = 0) (room : s.startingPoint.sym + s.symAvail < 256)
    (empty : dataDcis s.slotAlloc = [])
    (ready : ∀ info ∈ feedback, DlReady ofdma.bandwidthInRbg s.ueMap info.key)
    (computed : computeActiveHarq s.ueMap feedback [] = some active)
    (sorted : Arranged active arranged) (valid : activeDlUe.Valid) :
    (∃ s', ofdma.doScheduleDl arranged activeDlUe feedback s = some s' ∧
      DlDataSound ofdma arranged activeDlUe feedback s s') ↔ HarqClear ofdma arranged s := by
  obtain ⟨t, retransmitted, zero, used, sym, within, has, replaces⟩ :=
    retransmitDl_within bandwidth start unused room empty ready computed sorted
  have left : sub8 s.symAvail t.symUsed = s.symAvail - t.symUsed := by
    unfold sub8
    omega
  obtain ⟨fresh, stop, data, within', new⟩ :=
    @scheduleNewData_within ofdma (sub8 s.symAvail t.symUsed) activeDlUe t (by omega) valid zero
      (by omega)
  have done : ofdma.doScheduleDl arranged activeDlUe feedback s =
      some (scheduleNewData (ofdma.allocator (sub8 s.symAvail t.symUsed)
        (removeAllocated t.slotAlloc.varTtiAllocInfo activeDlUe)) .dl activeDlUe
        (sub8 s.symAvail t.symUsed) t) := by
    unfold doScheduleDl
    rw [retransmitted]
    rfl
  generalize scheduleNewData (ofdma.allocator (sub8 s.symAvail t.symUsed)
    (removeAllocated t.slotAlloc.varTtiAllocInfo activeDlUe)) .dl activeDlUe
    (sub8 s.symAvail t.symUsed) t = result at data done
  constructor
  · rintro ⟨s', done', sound⟩
    obtain rfl := Option.some.inj (done.symm.trans done')
    by_cases none_ : ofdma.dlNotchedRbgsMask = []
    · exact .inl none_
    · right
      intro entry mem rbg taken
      obtain ⟨dci, inside, here⟩ := (has rbg).mpr ⟨entry, mem, taken⟩
      exact sound.contained none_ dci (data ▸ mem_append_left fresh inside) rbg here
  · intro clear
    refine ⟨result, done, ?_, ?_, t, fresh, retransmitted, data, replaces,
      fun dci mem => ⟨(new dci mem).symbols, (new dci mem).rbgs⟩⟩
    · intro some_ dci mem rbg here
      rw [data] at mem
      obtain mem | mem := mem_append.mp mem
      · obtain ⟨entry, inside, taken⟩ := (has rbg).mp ⟨dci, mem, here⟩
        exact clear.resolve_left some_ entry inside rbg taken
      · have masked := (new dci mem).masked rbg here
        unfold rbgMask at masked
        rwa [if_neg fun none_ => some_ (length_eq_zero_iff.mp none_)] at masked
    · rw [data]
      exact (within.append within').apart

/-- Five RBGs, and UEs that all have as much to send. -/
def fiveRbgs (dlNotchedRbgsMask : List Nat) : NrMacSchedulerOfdma where
  bandwidthInRbg := 5
  dlNotchedRbgsMask
  bufQueueSize _ := 100
  hash := inserted _
  sort _ rntis := rntis
  sorted _ rntis := .refl rntis
  fulfilled _ _ := false
  dlTbSize _ _ _ := [100]
  dlMcs _ := [9]
  bwpId := 0
  tpc := 0
  shuffle := id
  shuffled := .refl
  harqId _ := 0
  rlcPduInfo _ := []

/-- A slot of 13 symbols, and a UE whose process was sent over six symbols of these RBGs. -/
def nackedSlot (rbgBitmask : List Nat) : HarqRun DlHarqInfo where
  ueMap rnti :=
    if rnti = 1 then
      some {
        rnti := 1
        beamConfId := (0, 0)
        dlHarq := fun id => if id = 0 then some {
          active := true
          status := .receivedFeedback
          timer := 0
          dciElement := some {
            rnti := 1, format := .dl, symStart := 2, numSym := 6, mcs := [9], tbSize := [500]
            ndi := [1], rv := [0], type := .data, rbgBitmask }
          rlcPduInfo := []
          nackStreamIndexes := [0] } else none
        ulHarq := fun _ => none }
    else none
  startingPoint := ⟨0, 1⟩
  symAvail := 13
  symUsed := 0
  harqToRetransmit := []
  slotAlloc := ⟨0, []⟩

theorem nackedSlot_ready {rbgBitmask : List Nat} (length : rbgBitmask.length = 5)
    (some_ : 1 ∈ rbgBitmask) :
    ∀ info ∈ dlNacks 1, DlReady 5 (nackedSlot rbgBitmask).ueMap info.key := by
  intro info member
  obtain rfl := mem_singleton.mp member
  exact ⟨_, rfl, rfl, rfl, le_rfl, le_rfl, le_rfl, length, some_, Nat.succ_pos _⟩

/-- The retransmission takes the first two RBGs, and the fourth is notched. -/
theorem fourth_notched :
    ∃ s', (fiveRbgs [1, 1, 1, 0, 1]).doScheduleDl [((0, 0), [(1, 0)])] [((0, 0), [2])] (dlNacks 1)
        (nackedSlot [1, 1, 1, 0, 1]) = some s' ∧
      DlDataSound (fiveRbgs [1, 1, 1, 0, 1]) [((0, 0), [(1, 0)])] [((0, 0), [2])] (dlNacks 1)
        (nackedSlot [1, 1, 1, 0, 1]) s' := by
  have sorted : Arranged [((0, 0), [(1, 0)])] [((0, 0), [(1, 0)])] :=
    ⟨_, .cons ⟨rfl, .refl _⟩ .nil, .refl _⟩
  have clear : HarqClear (fiveRbgs [1, 1, 1, 0, 1]) [((0, 0), [(1, 0)])]
      (nackedSlot [1, 1, 1, 0, 1]) := .inr (by decide)
  exact (dl_data_sound_iff (fiveRbgs [1, 1, 1, 0, 1]) (by decide) rfl rfl (by decide) rfl
    (nackedSlot_ready rfl (by decide)) rfl sorted ⟨by decide, by decide⟩).mpr clear

/-- The first RBG is notched. The retransmission of what was sent over the other ones takes it
all the same. -/
theorem first_notched :
    (∀ info ∈ dlNacks 1, DlReady 5 (nackedSlot [0, 1, 1, 1, 1]).ueMap info.key) ∧ ¬ ∃ s',
      (fiveRbgs [0, 1, 1, 1, 1]).doScheduleDl [((0, 0), [(1, 0)])] [] (dlNacks 1)
          (nackedSlot [0, 1, 1, 1, 1]) = some s' ∧
        DlDataSound (fiveRbgs [0, 1, 1, 1, 1]) [((0, 0), [(1, 0)])] [] (dlNacks 1)
          (nackedSlot [0, 1, 1, 1, 1]) s' := by
  refine ⟨nackedSlot_ready rfl (by decide), ?_⟩
  rintro ⟨s', done, sound⟩
  have masks : ((fiveRbgs [0, 1, 1, 1, 1]).doScheduleDl [((0, 0), [(1, 0)])] [] (dlNacks 1)
      (nackedSlot [0, 1, 1, 1, 1])).map (fun s' => (dataDcis s'.slotAlloc).map rbgBitmask) =
        some [[1, 1, 0, 0, 0]] := by decide
  rw [done] at masks
  obtain ⟨dci, mem, mask⟩ := mem_map.mp (Option.some.inj masks ▸ mem_singleton_self [1, 1, 0, 0, 0])
  have first : dci.Has 0 := by
    unfold Has
    rw [mask]
    rfl
  exact absurd (sound.contained (by decide) dci mem 0 first) (by decide)

end NrMacSchedulerOfdma

end Ns3.Nr
